import IocpNetwork.CircularBufferReservation

/-! A receive that is outstanding while bytes are removed. PostRecv hands the free range
to the kernel and RecvCompletion commits it later, both under the mutex but not the time
between them: a SendCompletion there may move the write position away from the bytes. -/
namespace IocpNetwork.CircularBuffer
open ByteMemory
open Runs (Reachable)

variable {w : Nat} {b : CircularBuffer w}

def Survives (b : CircularBuffer w) (len : Nat) : Prop :=
  b.getStoredSize = 0 ∨ len < b.mARegionSize ∨
    (b.mBRegionPointer ≠ none ∧ (b.mBRegionSize = 0 ∨ len = b.mARegionSize))
instance (b : CircularBuffer w) (len : Nat) : Decidable (b.Survives len) := by
  unfold Survives
  infer_instance

theorem Valid.commitContent (v : b.Valid) {n : Nat} (room : n ≤ b.writeSpace) :
    (b.commit n).content = b.content ++ bytesAt b.memory b.getBuffer n := by
  cases h : b.mBRegionPointer with
  | some p =>
    rw [v.commitB h room]
    simp only [content, getBuffer, h, bytesAtAdd, List.append_assoc]
  | none =>
    rw [v.commitA h room]
    simp only [content, getBuffer, h, bytesAtAdd, List.append_nil]

theorem Valid.storedSize (v : b.Valid) : b.getStoredSize = b.mARegionSize + b.mBRegionSize := by
  rw [v.getStoredSize, v.contentLength]

theorem Valid.emptiedStart (v : b.Valid) {len : Nat} (survives : b.Survives len)
    (all : b.mARegionSize + b.mBRegionSize ≤ len) : b.getBuffer = b.mBuffer := by
  have stored := v.storedSize
  rcases survives with none | less | ⟨allocated, empty⟩
  · have empty := v.aEmpty (by omega)
    simp only [getBuffer, empty.2, empty.1]
    omega
  · omega
  · obtain ⟨p, h⟩ := Option.ne_none_iff_exists'.mp allocated
    have inside := v.bInside p h
    simp only [getBuffer, h]
    omega

theorem Valid.survivingRemove (v : b.Valid) {len : Nat} (fitsLen : len < 2 ^ w)
    (survives : b.Survives len) :
    (b.remove len).getBuffer = b.getBuffer ∧
    ∀ data, (b.write b.getBuffer data).remove len = (b.remove len).write b.getBuffer data := by
  have stored := v.storedSize
  have written := fun data => writeValid v b.getBuffer data
  rcases v.removeCases fitsLen with ⟨inA, same⟩ | ⟨all, inB, same⟩ | ⟨all, same⟩
  · refine ⟨?_, fun data => ?_⟩
    · rw [same]
      cases h : b.mBRegionPointer with
      | some p => simp only [getBuffer, h]
      | none =>
        simp only [getBuffer, h]
        omega
    · rw [same, (written data).removeInA inA]
      rfl
  · -- B is promoted; it stays where it is, since A was emptied exactly
    have exactly : len = b.mARegionSize := by
      rcases survives with none | less | ⟨_, empty | exactly⟩ <;> omega
    cases h : b.mBRegionPointer with
    | none =>
      have size := v.bNull h
      omega
    | some p =>
      obtain ⟨rfl, _⟩ := v.bInside p h
      refine ⟨?_, fun data => ?_⟩
      · rw [same]
        simp only [getBuffer, h, exactly, Nat.sub_self, Nat.sub_zero]
      · rw [same, (written data).removePromotes fitsLen all inB]
        simp only [write, exactly, Nat.sub_self, Nat.add_zero, moveSelf]
  · have start := v.emptiedStart survives all
    refine ⟨?_, fun data => ?_⟩
    · rw [same, start]
      rfl
    · rw [same, (written data).removeEmpties fitsLen all]
      rfl

theorem Valid.movingRemove (v : b.Valid) {len : Nat} (fitsLen : len < 2 ^ w)
    (moves : ¬ b.Survives len) :
    (b.remove len).getBuffer < b.getBuffer ∧
    (b.remove len).memory (b.remove len).getBuffer = b.memory (b.remove len).getBuffer := by
  have stored := v.storedSize
  have start := v.aStart
  rcases v.removeCases fitsLen with ⟨inA, same⟩ | ⟨all, inB, same⟩ | ⟨all, same⟩
  · exact absurd (.inr (.inl inA)) moves
  · cases h : b.mBRegionPointer with
    | none =>
      have size := v.bNull h
      omega
    | some p =>
      obtain ⟨rfl, _⟩ := v.bInside p h
      have more : len ≠ b.mARegionSize := fun exactly =>
        moves (.inr (.inr ⟨by simp [h], .inr exactly⟩))
      rw [same]
      simp only [getBuffer, h]
      refine ⟨by omega, ?_⟩
      exact storeOutside b.memory (.inr (by simp))
  · rw [same]
    refine ⟨?_, rfl⟩
    cases h : b.mBRegionPointer with
    | none =>
      have some : b.mARegionSize ≠ 0 := fun zero => moves (.inl (by
        have size := v.bNull h
        omega))
      simp only [getBuffer, h]
      omega
    | some p =>
      obtain ⟨rfl, _⟩ := v.bInside p h
      have some : b.mBRegionSize ≠ 0 := fun zero => moves (.inr (.inr ⟨by simp [h], .inl zero⟩))
      simp only [getBuffer, h]
      omega

/- What RecvCompletion publishes, where the kernel wrote before the removal and where it
wrote after it. -/
def publishedBefore (b : CircularBuffer w) (len : Nat) (data : List UInt8) : List UInt8 :=
  (((b.write b.getBuffer data).remove len).commit data.length).content

def publishedAfter (b : CircularBuffer w) (len : Nat) (data : List UInt8) : List UInt8 :=
  (((b.remove len).write b.getBuffer data).commit data.length).content

theorem Valid.survivorPublished (v : b.Valid) {len : Nat} (fitsLen : len < 2 ^ w)
    (survives : b.Survives len) {data : List UInt8} (room : data.length ≤ b.writeSpace) :
    b.publishedBefore len data = b.content.drop len ++ data ∧
    b.publishedAfter len data = b.content.drop len ++ data := by
  obtain ⟨position, same⟩ := v.survivingRemove fitsLen survives
  have valid := v.removeValid fitsLen
  have after : b.publishedAfter len data = b.content.drop len ++ data := by
    unfold publishedAfter
    rw [← position, valid.writeCommitContent (room.trans (v.removeWriteSpace fitsLen)),
      v.removeContent fitsLen]
  refine ⟨?_, after⟩
  unfold publishedBefore
  rw [same data]
  exact after

theorem Valid.publishedHead (v : b.Valid) {front data : List UInt8} (some : 0 < data.length)
    (room : data.length ≤ b.writeSpace) (published : (b.commit data.length).content = front ++ data) :
    data.head? = Option.some (b.memory b.getBuffer) := by
  rw [v.commitContent room] at published
  have bytes := List.append_inj_right' published (bytesAtLength _ _ _)
  rw [← bytes, List.head?_eq_getElem?, bytesAtIndex _ (by simpa using some)]
  rfl

theorem Valid.removeWritten (v : b.Valid) {len : Nat} (fitsLen : len < 2 ^ w) (p : Nat)
    (data : List UInt8) : ((b.write p data).remove len).getBuffer = (b.remove len).getBuffer := by
  have written := writeValid v p data
  rcases v.removeCases fitsLen with ⟨inA, same⟩ | ⟨all, inB, same⟩ | ⟨all, same⟩
  · rw [same, written.removeInA inA]
    rfl
  · rw [same, written.removePromotes fitsLen all inB]
    rfl
  · rw [same, written.removeEmpties fitsLen all]
    rfl

theorem Valid.movedPublished (v : b.Valid) {len : Nat} (fitsLen : len < 2 ^ w)
    (moves : ¬ b.Survives len) {data : List UInt8} (some : 0 < data.length)
    (room : data.length ≤ b.writeSpace)
    (differs : data.head? ≠ Option.some (b.memory (b.remove len).getBuffer)) :
    b.publishedBefore len data ≠ b.content.drop len ++ data ∧
    b.publishedAfter len data ≠ b.content.drop len ++ data := by
  obtain ⟨back, kept⟩ := v.movingRemove fitsLen moves
  refine ⟨fun published => ?_, fun published => ?_⟩
  · have written := writeValid v b.getBuffer data
    have position := v.removeWritten fitsLen b.getBuffer data
    have kept' := (written.movingRemove fitsLen moves).2
    have head := (written.removeValid fitsLen).publishedHead some
      (Nat.le_trans room (written.removeWriteSpace fitsLen)) published
    rw [kept', position] at head
    simp only [write, storeOutside b.memory (.inl back)] at head
    exact differs head
  · have removed := writeValid (v.removeValid fitsLen) b.getBuffer data
    have head := removed.publishedHead some
      (Nat.le_trans room (v.removeWriteSpace fitsLen)) published
    have same : ((b.remove len).write b.getBuffer data).getBuffer = (b.remove len).getBuffer := rfl
    rw [same] at head
    simp only [write, storeOutside (b.remove len).memory (.inl back), kept] at head
    exact differs head

theorem outstandingSurvives (memory : Nat → UInt8) (buffer : Nat) (capacity : BitVec w)
    (s : Async.State w) (reached : Reachable Async.Step (Async.initial memory buffer capacity) s)
    (len : BitVec w) :
    let f := s.buffer.getFreeSpaceSize.1
    let b := s.buffer.getFreeSpaceSize.2
    ((b.remove len.toNat).getBuffer = b.getBuffer ↔ b.Survives len.toNat) ∧
    (b.Survives len.toNat → ∀ data : List UInt8, data.length ≤ f →
      b.publishedBefore len.toNat data = b.content.drop len.toNat ++ data ∧
      b.publishedAfter len.toNat data = b.content.drop len.toNat ++ data) ∧
    (¬ b.Survives len.toNat → ∃ other < b.getBuffer, ∀ data : List UInt8,
      0 < data.length → data.length ≤ f → data.head? ≠ some (b.memory other) →
      b.publishedBefore len.toNat data ≠ b.content.drop len.toNat ++ data ∧
      b.publishedAfter len.toNat data ≠ b.content.drop len.toNat ++ data) := by
  have valid := (Async.reachableInv reached).valid
  have v := valid.getFreeSpaceSizeValid
  have free := valid.getFreeSpaceSizeResult
  intro f b
  refine ⟨⟨fun kept => ?_, fun survives => (v.survivingRemove len.isLt survives).1⟩,
    fun survives data room => v.survivorPublished len.isLt survives (free ▸ room), fun moves => ?_⟩
  · by_contra moves
    exact absurd kept (Nat.ne_of_lt (v.movingRemove len.isLt moves).1)
  · exact ⟨_, (v.movingRemove len.isLt moves).1, fun data some room differs =>
      v.movedPublished len.isLt moves some (free ▸ room) differs⟩

theorem outstandingSurvivesPart : ∃ s : Async.State 64,
    Reachable Async.Step (Async.initial (fun _ => 9) 4096 8#64) s ∧
    s.buffer.getFreeSpaceSize.2.publishedBefore 2 [4] = [3, 4] ∧
    s.buffer.getFreeSpaceSize.2.publishedBefore 3 [4] = [1] := by
  have run : ∃ s : Async.State 64, Reachable Async.Step (Async.initial (fun _ => 9) 4096 8#64) s ∧
      s.buffer.getFreeSpaceSize.2.Survives 2 ∧ s.buffer.getFreeSpaceSize.1 = 5 ∧
      s.buffer.getFreeSpaceSize.2.content.drop 2 = [3] ∧
      s.buffer.getFreeSpaceSize.2.publishedBefore 3 [4] = [1] :=
    ⟨_, ⟨_, .more (.reserve _ rfl) (.more (.deliver _ ⟨4096, 8⟩ [1, 2, 3] rfl (by decide))
      (.more (.commit _ _ 3 rfl (by decide)) (.done _)))⟩, by decide, by decide, by decide, by decide⟩
  obtain ⟨s, reached, survives, free, rest, wrong⟩ := run
  refine ⟨s, reached, ?_, wrong⟩
  have published := ((outstandingSurvives _ _ _ s reached 2#64).2.1 survives [4] (by simp [free])).1
  rw [← show [3] ++ [4] = ([3, 4] : List UInt8) from rfl, ← rest]
  exact published

end IocpNetwork.CircularBuffer
