import IocpNetwork.CircularBufferOutstanding
import IocpNetwork.MssqlUsage.EchoBack
import IocpNetwork.MssqlUsage.SendPipeline

/-! The bytes of a session that only echoes, from the RecvCompletion that publishes them to
the SendCompletion that takes them away: through mRecvBuffer, EchoBack and mSendBuffer. -/
namespace IocpNetwork.MssqlUsage.World
open ByteMemory (bytesAt)
open Runs (Run Move actions)

variable {w : Nat} {x y z : World w}

/- `arrives` is what is written into the free room behind the content of mRecvBuffer before a
RecvCompletion; the session itself gives no buffer to WSARecv. -/
inductive EchoAction where
  | call (a : Action)
  | arrives (data : List UInt8)
  | echoBack

/- A send may be refused or fail to start. A completed send reports some of its bytes, and a
completed receive no more than there was room for. -/
def OfEcho (x : World w) : Action → Prop
  | .preRecv _ | .postRecv _ | .flushSend _ _ | .disconnectRequest _ _ => True
  | .completion c n => (c.mIoType = .ioSend → 0 < n ∧ n ≤ c.mWsaBuf.len) ∧
      (c.mIoType = .ioRecv → n ≤ x.session.mRecvBuffer.writeSpace)
  | .postSend _ | .failedCompletion _ _ => False

instance (x : World w) (a : Action) : Decidable (x.OfEcho a) :=
  match a with
  | .preRecv _ | .postRecv _ | .flushSend _ _ | .disconnectRequest _ _ => isTrue trivial
  | .completion c n => inferInstanceAs (Decidable ((c.mIoType = .ioSend → 0 < n ∧ n ≤ c.mWsaBuf.len) ∧
      (c.mIoType = .ioRecv → n ≤ x.session.mRecvBuffer.writeSpace)))
  | .postSend _ | .failedCompletion _ _ => isFalse id

inductive EchoStep : World w → EchoAction → World w → Prop where
  | call {x y : World w} {a : Action} {o : Option Bool} (step : Step x (a, o) y) (ofEcho : x.OfEcho a) :
      EchoStep x (.call a) y
  | arrives (x : World w) (data : List UInt8) (room : data.length ≤ x.session.mRecvBuffer.writeSpace) :
      EchoStep x (.arrives data)
        (x.setRecvBuffer (x.session.mRecvBuffer.write x.session.mRecvBuffer.getBuffer data))
  | echoBack (x : World w) : EchoStep x .echoBack x.echoBack

def published (m : Move (World w) EchoAction) : List UInt8 :=
  match m.action with
  | .call (.completion c n) =>
      if c.mIoType = .ioRecv then
        bytesAt m.before.session.mRecvBuffer.memory m.before.session.mRecvBuffer.getBuffer n
      else []
  | _ => []

def echoed (m : Move (World w) EchoAction) : List UInt8 :=
  match m.action with
  | .call (.completion c n) => if c.mIoType = .ioSend then (m.before.sendingBytes c).take n else []
  | _ => []

structure Echoing (x : World w) : Prop where
  line : x.Pipeline
  recv : x.session.mRecvBuffer.Valid

theorem Pipeline.frame (line : x.Pipeline) (ids : y.Ids) (sends : y.sends = x.sends)
    (issued : x.issued ⊆ y.issued) (buffer : y.session.mSendBuffer = x.session.mSendBuffer)
    (pending : y.session.mSendPendingCount = x.session.mSendPendingCount) : y.Pipeline := by
  refine ⟨ids, by rw [buffer]; exact line.valid, ?_⟩
  rw [sends, pending]
  rcases line.sending with idle | ⟨c, one, count, flight⟩
  · exact .inl idle
  · exact .inr ⟨c, one, count, flight.grown issued (keepsSame buffer)⟩

structure Quiet (x y : World w) : Prop where
  sends : y.sends = x.sends
  issued : x.issued ⊆ y.issued
  buffer : y.session.mSendBuffer = x.session.mSendBuffer
  pending : y.session.mSendPendingCount = x.session.mSendPendingCount
  recv : y.session.mRecvBuffer = x.session.mRecvBuffer ∨
    y.session.mRecvBuffer = x.session.mRecvBuffer.getFreeSpaceSize.2

theorem openedSends {c : OverlappedIOContext} (other : c.mIoType ≠ .ioSend) : (x.opened c).sends = x.sends := by
  simp [sends, opened, other]

theorem closedSends {c : OverlappedIOContext} (other : c.mIoType ≠ .ioSend) : (x.closed c).sends = x.sends := by
  have absent : c ∉ x.live.filter fun c => c.mIoType = .ioSend := fun mem =>
    other (of_decide_eq_true (List.mem_filter.mp mem).2)
  show (x.live.erase c).filter (fun c => c.mIoType = .ioSend) = x.live.filter fun c => c.mIoType = .ioSend
  rw [← List.erase_filter, List.erase_of_not_mem absent]

theorem disconnectRequestQuiet {dr lastError} (h : x.disconnectRequest dr lastError = .ok y) : Quiet x y := by
  obtain ⟨sends, buffer, pending, issued⟩ := disconnectRequestSends h
  refine ⟨sends, issued ▸ List.Subset.refl _, buffer, pending, .inl ?_⟩
  rcases disconnectRequestOk h with ⟨_, rfl⟩ | ⟨_, _, c, rfl, ⟨_, rfl⟩ | ⟨_, rfl⟩⟩ <;> rfl

theorem preRecvQuiet {r b} (h : x.preRecv r = .ok (b, y)) : Quiet x y := by
  rcases preRecvOk h with ⟨_, _, rfl⟩ | ⟨_, _, c, rfl, ⟨_, _, rfl⟩ | ⟨_, _, rfl⟩⟩
  · exact ⟨rfl, List.Subset.refl _, rfl, rfl, .inl rfl⟩
  · exact ⟨openedSends (by simp [fresh]), List.subset_cons_self _ _, rfl, rfl, .inl rfl⟩
  · refine ⟨?_, List.Subset.refl _, rfl, rfl, .inl rfl⟩
    exact (closedSends (by simp [fresh])).trans (openedSends (by simp [fresh]))

theorem postRecvQuiet {r b} (h : x.postRecv r = .ok (b, y)) : Quiet x y := by
  rcases postRecvOk h with ⟨_, _, rfl⟩ | ⟨_, z, rfl, ⟨_, _, rfl⟩ | ⟨_, _, c, rfl, ⟨_, _, rfl⟩ | ⟨_, _, rfl⟩⟩⟩
  · exact ⟨rfl, List.Subset.refl _, rfl, rfl, .inl rfl⟩
  · exact ⟨rfl, List.Subset.refl _, rfl, rfl, .inr rfl⟩
  · exact ⟨openedSends (by simp [fresh]), List.subset_cons_self _ _, rfl, rfl, .inr rfl⟩
  · refine ⟨?_, List.Subset.refl _, rfl, rfl, .inr rfl⟩
    exact (closedSends (by simp [fresh])).trans (openedSends (by simp [fresh]))

def inside (x : World w) : List UInt8 := x.session.mSendBuffer.content ++ x.session.mRecvBuffer.content

theorem Quiet.keeps (echoing : x.Echoing) (ids : y.Ids) (quiet : Quiet x y) :
    y.Echoing ∧ y.inside = x.inside := by
  have line := echoing.line.frame ids quiet.sends quiet.issued quiet.buffer quiet.pending
  unfold inside
  rw [quiet.buffer]
  rcases quiet.recv with same | queried
  · rw [same]
    exact ⟨⟨line, same ▸ echoing.recv⟩, rfl⟩
  · rw [queried, echoing.recv.getFreeSpaceSizeContent]
    exact ⟨⟨line, queried ▸ echoing.recv.getFreeSpaceSizeValid⟩, rfl⟩

theorem Echoing.arrived (echoing : x.Echoing) {data : List UInt8}
    (room : data.length ≤ x.session.mRecvBuffer.writeSpace) :
    let y := x.setRecvBuffer (x.session.mRecvBuffer.write x.session.mRecvBuffer.getBuffer data)
    y.Echoing ∧ y.inside = x.inside := by
  have ids := echoing.line.ids
  refine ⟨⟨echoing.line.frame ⟨ids.nodup, ids.known, ids.below⟩ rfl (List.Subset.refl _) rfl rfl,
    CircularBuffer.writeValid echoing.recv _ data⟩, ?_⟩
  exact congrArg (x.session.mSendBuffer.content ++ ·) (echoing.recv.writeContent room)

theorem Echoing.sends (echoing : x.Echoing) {a : Action × Option Bool} (step : SendStep x a y)
    (recv : y.session.mRecvBuffer = x.session.mRecvBuffer) (nothing : accepted ⟨x, a, y⟩ = []) :
    y.Echoing ∧ acknowledged ⟨x, a, y⟩ ++ y.inside = x.inside := by
  have content := stepConserves x a y echoing.line step
  rw [nothing, List.append_nil] at content
  refine ⟨⟨stepPipeline x a y echoing.line step, recv ▸ echoing.recv⟩, ?_⟩
  unfold inside
  rw [recv, ← List.append_assoc, content]

theorem flushSendRecv {r lastError b} (h : x.flushSend r lastError = .ok (b, y)) :
    y.session.mRecvBuffer = x.session.mRecvBuffer := by
  rcases flushSendOk h with ⟨rfl, _⟩ | ⟨_, _, _, _, ⟨_, _, rfl⟩ | ⟨_, _, disconnected⟩⟩
  · rfl
  · rfl
  · rcases disconnectRequestOk disconnected with ⟨_, rfl⟩ | ⟨_, _, c, rfl, ⟨_, rfl⟩ | ⟨_, rfl⟩⟩ <;> rfl

theorem Echoing.received (echoing : x.Echoing) {c : OverlappedIOContext} (kind : c.mIoType = .ioRecv) {n : Nat}
    (room : n ≤ x.session.mRecvBuffer.writeSpace) (ids : ((x.recvCompletion n).closed c).Ids) :
    ((x.recvCompletion n).closed c).Echoing ∧ ((x.recvCompletion n).closed c).inside =
      x.inside ++ bytesAt x.session.mRecvBuffer.memory x.session.mRecvBuffer.getBuffer n := by
  have sends : ((x.recvCompletion n).closed c).sends = x.sends := closedSends (by simp [kind])
  refine ⟨⟨echoing.line.frame ids sends (List.Subset.refl _) rfl rfl, echoing.recv.commitValid room⟩, ?_⟩
  have content := echoing.recv.commitContent room
  show x.session.mSendBuffer.content ++ (x.session.mRecvBuffer.commit n).content = _
  rw [content, inside, List.append_assoc]

theorem Echoing.completed (echoing : x.Echoing) {c : OverlappedIOContext} {n : Nat} {out : Option Bool}
    (step : Step x (.completion c n, out) y) (ofEcho : x.OfEcho (.completion c n)) : y.Echoing ∧
      echoed ⟨x, .call (.completion c n), y⟩ ++ y.inside =
        x.inside ++ published ⟨x, .call (.completion c n), y⟩ := by
  have ids := stepIds x _ y echoing.line.ids step
  rcases completionOk (returningOk step.2).1 with ⟨kind, same⟩ | ⟨kind, same⟩ | ⟨kind, same⟩ |
    ⟨notSend, notRecv, _, same⟩
  · have sent : SendStep x (.completion c n, out) y := ⟨step, kind, ofEcho.1 kind⟩
    obtain ⟨echoing', content⟩ := echoing.sends sent (by rw [same]; rfl) rfl
    refine ⟨echoing', ?_⟩
    simp only [echoed, published, kind, if_true, reduceCtorEq, if_false, List.append_nil]
    exact content
  · subst same
    obtain ⟨echoing', content⟩ := echoing.received kind (ofEcho.2 kind) ids
    refine ⟨echoing', ?_⟩
    simp only [echoed, published, kind, if_true, reduceCtorEq, if_false, List.nil_append]
    exact content
  · subst same
    have quiet : Quiet x ((x.baseReleased c.mDisconnectReason).closed c) :=
      ⟨closedSends (by simp [kind]), List.Subset.refl _, rfl, rfl, .inl rfl⟩
    obtain ⟨echoing', content⟩ := quiet.keeps echoing ids
    refine ⟨echoing', ?_⟩
    simp only [echoed, published, kind, reduceCtorEq, if_false, List.nil_append, List.append_nil]
    exact content
  · subst same
    have quiet : Quiet x (x.closed c) :=
      ⟨closedSends notSend, List.Subset.refl _, rfl, rfl, .inl rfl⟩
    obtain ⟨echoing', content⟩ := quiet.keeps echoing ids
    refine ⟨echoing', ?_⟩
    simp only [echoed, published, if_neg notSend, if_neg notRecv, List.nil_append, List.append_nil]
    exact content

theorem Echoing.moved (echoing : x.Echoing) : x.echoBack.Echoing ∧ x.echoBack.inside = x.inside := by
  have content : x.echoBack.inside = x.inside := echoBackContent echoing.recv echoing.line.valid
  refine ⟨?_, content⟩
  by_cases none : x.session.mRecvBuffer.getContiguiousBytes = 0
  · have same : x.echoBack = x := if_pos none
    rw [same]
    exact echoing
  · cases posted : x.postSend (x.receivedBytes x.session.mRecvBuffer.getContiguiousBytes) with
    | mk sent y =>
      have ran : x.echoBack = if sent = false then y else y.setRecvBuffer
          (y.session.mRecvBuffer.remove x.session.mRecvBuffer.getContiguiousBytes) := by
        simp only [echoBack, none, if_false, posted]
      have step : SendStep x (.postSend _, some sent) y :=
        ⟨⟨trivial, by rw [exec, posted]; rfl⟩, trivial⟩
      have line := stepPipeline x _ y echoing.line step
      have recv : y.session.mRecvBuffer = x.session.mRecvBuffer := by
        rcases postSendOk posted with ⟨_, _, rfl⟩ | ⟨_, ⟨_, _, rfl⟩ | ⟨_, _, rfl⟩⟩ <;> rfl
      have fits : x.session.mRecvBuffer.getContiguiousBytes < 2 ^ w := by
        have capacity := echoing.recv.capacityFits
        have stored := echoing.recv.storedFits
        unfold CircularBuffer.getContiguiousBytes
        split <;> omega
      rw [ran]
      split
      · exact ⟨line, recv ▸ echoing.recv⟩
      · refine ⟨⟨⟨line.ids.nodup, line.ids.known, line.ids.below⟩, line.valid, ?_⟩, ?_⟩
        · rcases line.sending with idle | ⟨c, one, count, flight⟩
          · exact .inl idle
          · exact .inr ⟨c, one, count, flight.issued, flight.start, flight.covered⟩
        · show (y.session.mRecvBuffer.remove _).Valid
          rw [recv]
          exact echoing.recv.removeValid fits

theorem stepEchoes (x : World w) (a : EchoAction) (y : World w) (echoing : x.Echoing)
    (h : EchoStep x a y) : y.Echoing ∧
      echoed ⟨x, a, y⟩ ++ y.inside = x.inside ++ published ⟨x, a, y⟩ := by
  cases h with
  | echoBack =>
    obtain ⟨echoing', content⟩ := echoing.moved
    exact ⟨echoing', content.trans (List.append_nil _).symm⟩
  | arrives data room =>
    obtain ⟨echoing', content⟩ := echoing.arrived room
    exact ⟨echoing', content.trans (List.append_nil _).symm⟩
  | @call _ act out step ofEcho =>
    have ids := stepIds x _ y echoing.line.ids step
    cases act with
    | preRecv r =>
      obtain ⟨b, ran, _⟩ := returningBoolOk step.2
      obtain ⟨echoing', content⟩ := (preRecvQuiet ran).keeps echoing ids
      exact ⟨echoing', content.trans (List.append_nil _).symm⟩
    | postRecv r =>
      obtain ⟨b, ran, _⟩ := returningBoolOk step.2
      obtain ⟨echoing', content⟩ := (postRecvQuiet ran).keeps echoing ids
      exact ⟨echoing', content.trans (List.append_nil _).symm⟩
    | disconnectRequest dr lastError =>
      obtain ⟨echoing', content⟩ := (disconnectRequestQuiet (returningOk step.2).1).keeps echoing ids
      exact ⟨echoing', content.trans (List.append_nil _).symm⟩
    | flushSend r lastError =>
      obtain ⟨b, ran, _⟩ := returningBoolOk step.2
      obtain ⟨echoing', content⟩ := echoing.sends ⟨step, trivial⟩ (flushSendRecv ran) rfl
      exact ⟨echoing', content.trans (List.append_nil _).symm⟩
    | completion c n => exact echoing.completed step ofEcho
    | postSend data => exact absurd ofEcho id
    | failedCompletion c lastError => exact absurd ofEcho id

/- What the socket took is what was published, in order, but for what is still in mSendBuffer
and, behind it, in mRecvBuffer. -/
theorem echoStream (s : Session w) (recvMemory sendMemory : Nat → UInt8) (recvBuffer sendBuffer : Nat)
    (recvCapacity sendCapacity : BitVec w) (recv : s.mRecvBuffer = .create recvMemory recvBuffer recvCapacity)
    (send : s.mSendBuffer = .create sendMemory sendBuffer sendCapacity) (idle : s.mSendPendingCount = 0)
    (moves : List (Move (World w) EchoAction)) (x : World w) (run : Run EchoStep (start s) moves x) :
    moves.flatMap echoed ++ (x.session.mSendBuffer.content ++ x.session.mRecvBuffer.content) =
      moves.flatMap published := by
  have first : (start s).Echoing :=
    ⟨startPipeline (send ▸ CircularBuffer.createValid _ _ _) idle, by
      show s.mRecvBuffer.Valid
      exact recv ▸ CircularBuffer.createValid _ _ _⟩
  have empty : (start s).inside = [] := by
    simp [inside, start, recv, send, CircularBuffer.content, CircularBuffer.create]
  have conserved := run.conserves inside echoed published (fun x a y echoing h => (stepEchoes x a y echoing h).1)
    (fun x a y echoing h => (stepEchoes x a y echoing h).2) first
  rwa [empty, List.nil_append] at conserved

theorem echoStreamThree : ∃ moves x, Run EchoStep (start idleSession) moves x ∧
    moves.flatMap published = [1, 2, 3, 4] ∧ moves.flatMap echoed = [1, 2] ∧
    moves.flatMap echoed ++ (x.session.mSendBuffer.content ++ x.session.mRecvBuffer.content) = [1, 2, 3, 4] := by
  have ran : ∃ moves x, Run EchoStep (start idleSession) moves x ∧
      moves.flatMap published = [1, 2, 3, 4] ∧ moves.flatMap echoed = [1, 2] :=
    ⟨_, _, .more (a := .call (.postRecv .done))
        (.call (a := .postRecv .done) (o := some true) ⟨trivial, rfl⟩ trivial)
      (.more (a := .arrives [1, 2, 3]) (.arrives _ _ (of_decide_eq_true rfl))
      (.more (a := .call (.completion ⟨0, .ioRecv, ⟨0, none⟩, .drNone⟩ 3))
        (.call (o := none) ⟨of_decide_eq_true rfl, rfl⟩ (of_decide_eq_true rfl))
      (.more (a := .echoBack) (.echoBack _)
      (.more (a := .call (.flushSend .done 0))
        (.call (o := some true) ⟨by simp [Enabled], rfl⟩ (by simp [OfEcho]))
      (.more (a := .call (.postRecv .done))
        (.call (o := some true) ⟨by simp [Enabled], rfl⟩ (by simp [OfEcho]))
      (.more (a := .call (.completion ⟨1, .ioSend, ⟨3, some 8192⟩, .drNone⟩ 2))
        (.call (o := none) ⟨of_decide_eq_true rfl, rfl⟩ (of_decide_eq_true rfl))
      (.more (a := .arrives [4]) (.arrives _ _ (of_decide_eq_true rfl))
      (.more (a := .call (.completion ⟨2, .ioRecv, ⟨0, none⟩, .drNone⟩ 1))
        (.call (o := none) ⟨of_decide_eq_true rfl, rfl⟩ (of_decide_eq_true rfl))
      (.done _))))))))), rfl, rfl⟩
  obtain ⟨moves, x, run, given, taken⟩ := ran
  have conserved := echoStream idleSession _ _ _ _ _ _ rfl rfl rfl moves x run
  exact ⟨moves, x, run, given, taken, conserved.trans given⟩

end IocpNetwork.MssqlUsage.World
