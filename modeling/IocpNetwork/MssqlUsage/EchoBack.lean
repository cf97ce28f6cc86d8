import IocpNetwork.CircularBufferFreeSpace
import IocpNetwork.CircularBufferReservation
import IocpNetwork.MssqlUsage.SessionSteps

/-! EchoBack moves received bytes to the send buffer: what is contiguous at the front of
mRecvBuffer is posted by PostSend and then removed. -/
namespace IocpNetwork.MssqlUsage.World
open ByteMemory (bytesAt bytesAtLength)
open CircularBuffer.Async (Reached)

variable {w : Nat} {x y z : World w}

def receivedBytes (x : World w) (len : Nat) : List UInt8 :=
  match x.session.mRecvBuffer.getBufferStart with
  | none => []
  | some p => bytesAt x.session.mRecvBuffer.memory p len

def echoBack (x : World w) : World w :=
  let len := x.session.mRecvBuffer.getContiguiousBytes
  if len = 0 then x
  else
    let (sent, y) := x.postSend (x.receivedBytes len)
    if sent = false then y
    else y.setRecvBuffer (y.session.mRecvBuffer.remove len)

def Unmoved (x y : World w) : Prop :=
  (x.session.mConnected = 0 ∨ x.session.mRecvBuffer.content = [] ∨
    x.session.mSendBuffer.getFreeSpaceSize.1 < x.session.mRecvBuffer.getContiguiousBytes) ∧
  y.session.mSendBuffer.content = x.session.mSendBuffer.content ∧
  y.session.mRecvBuffer.content = x.session.mRecvBuffer.content

def Moved (x y : World w) : Prop :=
  x.session.mConnected ≠ 0 ∧
  x.session.mRecvBuffer.getContiguiousBytes ≤ x.session.mSendBuffer.getFreeSpaceSize.1 ∧
  0 < x.session.mRecvBuffer.getContiguiousBytes ∧
  x.session.mRecvBuffer.getContiguiousBytes ≤ x.session.mRecvBuffer.content.length ∧
  y.session.mSendBuffer.content = x.session.mSendBuffer.content ++
    x.session.mRecvBuffer.content.take x.session.mRecvBuffer.getContiguiousBytes ∧
  y.session.mRecvBuffer.content =
    x.session.mRecvBuffer.content.drop x.session.mRecvBuffer.getContiguiousBytes

theorem receivedFront (v : x.session.mRecvBuffer.Valid) (some : x.session.mRecvBuffer.content ≠ []) :
    0 < x.session.mRecvBuffer.getContiguiousBytes ∧
    x.receivedBytes x.session.mRecvBuffer.getContiguiousBytes =
      x.session.mRecvBuffer.content.take x.session.mRecvBuffer.getContiguiousBytes ∧
    (x.receivedBytes x.session.mRecvBuffer.getContiguiousBytes).length =
      x.session.mRecvBuffer.getContiguiousBytes := by
  obtain ⟨p, start, pos, front⟩ := v.contiguousPrefix.2 some
  have bytes : x.receivedBytes x.session.mRecvBuffer.getContiguiousBytes =
      bytesAt x.session.mRecvBuffer.memory p x.session.mRecvBuffer.getContiguiousBytes := by
    simp only [receivedBytes, start]
  refine ⟨pos, ?_, ?_⟩
  · rw [bytes, List.prefix_iff_eq_take.mp front, bytesAtLength]
  · rw [bytes, bytesAtLength]

theorem echoBackCases (recv : x.session.mRecvBuffer.Valid) (send : x.session.mSendBuffer.Valid) :
    x.Unmoved x.echoBack ∨ (x.Moved x.echoBack ∧ x.echoBack.session.mRecvBuffer =
      x.session.mRecvBuffer.remove x.session.mRecvBuffer.getContiguiousBytes) := by
  by_cases none : x.session.mRecvBuffer.content = []
  · have zero := recv.contiguousPrefix.1 none
    have same : x.echoBack = x := if_pos zero
    rw [same]
    exact .inl ⟨.inr (.inl none), rfl, rfl⟩
  · obtain ⟨pos, bytes, length⟩ := receivedFront recv none
    have more : ¬ x.session.mRecvBuffer.getContiguiousBytes = 0 := by omega
    have capacity := recv.capacityFits
    have stored := recv.storedFits
    have total := recv.contentLength
    have part := congrArg List.length bytes
    rw [length, List.length_take] at part
    cases posted : x.postSend (x.receivedBytes x.session.mRecvBuffer.getContiguiousBytes) with
    | mk sent y =>
      have ran : x.echoBack =
          if sent = false then y else y.setRecvBuffer (y.session.mRecvBuffer.remove
            x.session.mRecvBuffer.getContiguiousBytes) := by
        simp only [echoBack, more, if_false, posted]
      rw [ran]
      rcases postSendOk posted with ⟨off, rfl, rfl⟩ | ⟨on, ⟨short, rfl, rfl⟩ | ⟨room, rfl, rfl⟩⟩
      · exact .inl ⟨.inl off, rfl, rfl⟩
      · rw [length] at short
        exact .inl ⟨.inr (.inr short), send.getFreeSpaceSizeContent, rfl⟩
      · have enough := room
        rw [length] at enough
        refine .inr ⟨⟨on, enough, pos, by omega, ?_, ?_⟩, rfl⟩
        · rw [← bytes]
          exact send.appendContent room
        · exact recv.removeContent (by omega)

theorem echoBackContent (recv : x.session.mRecvBuffer.Valid) (send : x.session.mSendBuffer.Valid) :
    x.echoBack.session.mSendBuffer.content ++ x.echoBack.session.mRecvBuffer.content =
      x.session.mSendBuffer.content ++ x.session.mRecvBuffer.content := by
  rcases echoBackCases recv send with ⟨_, sent, received⟩ | ⟨⟨_, _, _, _, sent, received⟩, _⟩
  · rw [sent, received]
  · rw [sent, received, List.append_assoc, List.take_append_drop]

theorem emptySpace {b : CircularBuffer w} (v : b.Valid) (none : b.content = []) :
    b.getFreeSpaceSize.1 = b.mCapacity := by
  have length := v.contentLength
  rw [none, List.length_nil] at length
  obtain ⟨start, free⟩ := v.aEmpty (by omega)
  have stop := v.bufferEnd
  rcases v.freeSpace with ⟨p, allocated, _⟩ | ⟨_, _, space⟩
  · rw [free] at allocated
    contradiction
  · omega

theorem contiguousRest {b : CircularBuffer w} (v : b.Valid) :
    (b.remove b.getContiguiousBytes).getContiguiousBytes =
      (b.remove b.getContiguiousBytes).content.length := by
  have fits := v.aFits
  have capacity := v.capacityFits
  have fitsLen : b.mARegionSize < 2 ^ w := by omega
  rw [v.contiguousA, (v.removeValid fitsLen).contentLength]
  rcases v.removeCases fitsLen with ⟨less, _⟩ | ⟨_, _, same⟩ | ⟨_, same⟩
  · omega
  · rw [same]
    simp only [CircularBuffer.getContiguiousBytes]
    split <;> omega
  · rw [same]
    rfl

theorem echoBackMoves (recv : x.session.mRecvBuffer.Valid) (send : x.session.mSendBuffer.Valid)
    (on : x.session.mConnected ≠ 0) (empty : x.session.mSendBuffer.content = [])
    (larger : x.session.mRecvBuffer.mCapacity ≤ x.session.mSendBuffer.mCapacity)
    (some : x.session.mRecvBuffer.content ≠ []) :
    x.Moved x.echoBack ∧ x.echoBack.session.mRecvBuffer =
      x.session.mRecvBuffer.remove x.session.mRecvBuffer.getContiguiousBytes := by
  rcases echoBackCases recv send with ⟨off | none | short, _⟩ | moved
  · contradiction
  · contradiction
  · have space := emptySpace send empty
    have stored := recv.storedFits
    have contiguous := recv.contiguousA
    omega
  · exact moved

theorem echoBackEmpties (recv : x.session.mRecvBuffer.Valid) (send : x.session.mSendBuffer.Valid)
    (on : x.session.mConnected ≠ 0) (empty : x.session.mSendBuffer.content = [])
    (larger : x.session.mRecvBuffer.mCapacity ≤ x.session.mSendBuffer.mCapacity)
    (contiguous : x.session.mRecvBuffer.getContiguiousBytes = x.session.mRecvBuffer.content.length) :
    x.echoBack.session.mRecvBuffer.content = [] := by
  by_cases none : x.session.mRecvBuffer.content = []
  · have same : x.echoBack = x := if_pos (recv.contiguousPrefix.1 none)
    rw [same, none]
  · obtain ⟨⟨_, _, _, _, _, rest⟩, _⟩ := echoBackMoves recv send on empty larger none
    rw [rest, contiguous, List.drop_length]

theorem echoBackFrame (x : World w) : x.echoBack.session.mConnected = x.session.mConnected ∧
    x.echoBack.issued = x.issued := by
  unfold echoBack
  dsimp only
  split
  · exact ⟨rfl, rfl⟩
  · cases posted : x.postSend (x.receivedBytes x.session.mRecvBuffer.getContiguiousBytes) with
    | mk sent y =>
      rcases postSendOk posted with ⟨_, rfl, rfl⟩ | ⟨_, ⟨_, rfl, rfl⟩ | ⟨_, rfl, rfl⟩⟩ <;>
        exact ⟨rfl, rfl⟩

theorem echoBackConserves (x : World w) (recvCapacity sendCapacity : BitVec w)
    (recv : Reached recvCapacity x.session.mRecvBuffer)
    (send : Reached sendCapacity x.session.mSendBuffer) :
    x.echoBack.session.mSendBuffer.content ++ x.echoBack.session.mRecvBuffer.content =
      x.session.mSendBuffer.content ++ x.session.mRecvBuffer.content ∧
    (x.Unmoved x.echoBack ∨ x.Moved x.echoBack) ∧
    (x.session.mConnected ≠ 0 → x.session.mSendBuffer.content = [] →
      recvCapacity.toNat ≤ sendCapacity.toNat → x.session.mRecvBuffer.content ≠ [] →
      x.Moved x.echoBack ∧
      ∀ z : World w, z.session.mRecvBuffer = x.echoBack.session.mRecvBuffer →
        z.session.mConnected ≠ 0 → Reached sendCapacity z.session.mSendBuffer →
        z.session.mSendBuffer.content = [] → z.echoBack.session.mRecvBuffer.content = []) := by
  obtain ⟨v, recvSize⟩ := recv.validCapacity
  obtain ⟨u, sendSize⟩ := send.validCapacity
  refine ⟨echoBackContent v u, ?_, fun on empty larger some => ?_⟩
  · exact (echoBackCases v u).imp_right fun moved => moved.1
  · obtain ⟨moved, rest⟩ := echoBackMoves v u on empty (by omega) some
    refine ⟨moved, fun z same on' drained empty' => ?_⟩
    obtain ⟨u', drainedSize⟩ := drained.validCapacity
    have capacity := v.capacityFits
    have stored := v.storedFits
    have fits : x.session.mRecvBuffer.getContiguiousBytes < 2 ^ w := by
      obtain ⟨_, _, _, atMost, _⟩ := moved
      rw [v.contentLength] at atMost
      omega
    have block := v.removeBlock fits
    have v' := v.removeValid fits
    have size := v.sameCapacity v' block.1 block.2
    rw [rest] at same
    refine echoBackEmpties (same ▸ v') u' on' empty' ?_ ?_
    · rw [same, size]
      omega
    · rw [same]
      exact contiguousRest v

theorem echoBackConservesSplit : ∃ x : World 64, x.session.mRecvBuffer.content = [5, 6, 7, 8] ∧
    x.echoBack.session.mSendBuffer.content = [5, 6] ∧
    (x.echoBack.setSendBuffer (.create (fun _ => 0) 8192 8#64)).echoBack.session.mRecvBuffer.content =
      [] := by
  have split : ∃ b : CircularBuffer 64, Reached 8#64 b ∧ b.content = [5, 6, 7, 8] ∧
      b.getContiguiousBytes = 2 :=
    ⟨_, ⟨fun _ => 0, 4096, _, ⟨_, .more (.reserve _ rfl)
      (.more (.deliver _ _ [1, 2, 3, 4, 5, 6] rfl (by decide)) (.more (.commit _ _ 6 rfl (by decide))
      (.more (.remove _ 4#64) (.more (.reserve _ rfl) (.more (.deliver _ _ [7, 8] rfl (by decide))
      (.more (.commit _ _ 2 rfl (by decide)) (.done _)))))))⟩, rfl⟩, by decide, by decide⟩
  obtain ⟨b, recv, content, contiguous⟩ := split
  have send : Reached 8#64 (CircularBuffer.create (fun _ => 0) 8192 8#64) :=
    ⟨_, _, _, ⟨_, .done _⟩, rfl⟩
  obtain ⟨_, _, moves⟩ := echoBackConserves ((start idleSession).setRecvBuffer b) 8#64 8#64 recv send
  obtain ⟨⟨_, _, _, _, sent, _⟩, rest⟩ := moves Int.one_ne_zero rfl (Nat.le_refl _)
    (content ▸ List.cons_ne_nil _ _)
  refine ⟨(start idleSession).setRecvBuffer b, content, ?_, ?_⟩
  · have first : ((start idleSession).setRecvBuffer b).session.mRecvBuffer = b := rfl
    rw [sent, first, content, contiguous]
    rfl
  · have on := (echoBackFrame ((start idleSession).setRecvBuffer b)).1.trans_ne Int.one_ne_zero
    exact rest _ rfl on send rfl

end IocpNetwork.MssqlUsage.World
