import IocpNetwork.CircularBufferQueue
import IocpNetwork.MssqlUsage.SessionSteps

/-! The send pipeline of a Session: PostSend fills mSendBuffer, FlushSend posts what is
contiguous in it, SendCompletion removes what the socket took. -/
namespace IocpNetwork.MssqlUsage.World
open ByteMemory (bytesAt bytesAtTake)
open Runs (Run Move actions)

variable {w : Nat} {x y : World w}

def sends (x : World w) : List OverlappedIOContext := x.live.filter fun c => c.mIoType = .ioSend

def sendingBytes (x : World w) (c : OverlappedIOContext) : List UInt8 :=
  match c.mWsaBuf.buf with
  | none => []
  | some p => bytesAt x.session.mSendBuffer.memory p c.mWsaBuf.len

/- A completed send reports some of the bytes it was posted with, and at least one. -/
def OfSendPipeline : Action → Prop
  | .postSend _ | .flushSend _ _ => True
  | .completion c n => c.mIoType = .ioSend ∧ 0 < n ∧ n ≤ c.mWsaBuf.len
  | .preRecv _ | .postRecv _ | .disconnectRequest _ _ | .failedCompletion _ _ => False

instance (a : Action) : Decidable (OfSendPipeline a) :=
  match a with
  | .postSend _ | .flushSend _ _ => isTrue trivial
  | .completion c n => inferInstanceAs (Decidable (c.mIoType = .ioSend ∧ 0 < n ∧ n ≤ c.mWsaBuf.len))
  | .preRecv _ | .postRecv _ | .disconnectRequest _ _ | .failedCompletion _ _ => isFalse id

def SendStep (x : World w) (a : Action × Option Bool) (y : World w) : Prop :=
  Step x a y ∧ OfSendPipeline a.1

def accepted (m : Move (World w) (Action × Option Bool)) : List UInt8 :=
  match m.action with
  | (.postSend data, some true) => data
  | _ => []

def acknowledged (m : Move (World w) (Action × Option Bool)) : List UInt8 :=
  match m.action.1 with
  | .completion c n => (m.before.sendingBytes c).take n
  | _ => []

structure InFlight (x : World w) (c : OverlappedIOContext) : Prop where
  issued : c ∈ x.issued
  start : c.mWsaBuf.buf = some x.session.mSendBuffer.mARegionPointer
  covered : c.mWsaBuf.len ≤ x.session.mSendBuffer.mARegionSize

structure Pipeline (x : World w) : Prop where
  ids : x.Ids
  valid : x.session.mSendBuffer.Valid
  sending : (x.sends = [] ∧ x.session.mSendPendingCount = 0) ∨
    ∃ c, x.sends = [c] ∧ x.session.mSendPendingCount = 1 ∧ x.InFlight c

theorem startPipeline {s : Session w} (valid : s.mSendBuffer.Valid) (idle : s.mSendPendingCount = 0) :
    (start s).Pipeline := ⟨startIds s, valid, .inl ⟨rfl, idle⟩⟩

theorem InFlight.grown {c : OverlappedIOContext} (flight : x.InFlight c) (issued : x.issued ⊆ y.issued)
    (keeps : x.session.mSendBuffer.KeepsA y.session.mSendBuffer) : y.InFlight c where
  issued := issued flight.issued
  start := by rw [keeps.pointer]; exact flight.start
  covered := Nat.le_trans flight.covered keeps.size

theorem InFlight.sameBytes {c : OverlappedIOContext} (flight : x.InFlight c)
    (keeps : x.session.mSendBuffer.KeepsA y.session.mSendBuffer) :
    y.sendingBytes c = x.sendingBytes c := by
  simp only [sendingBytes, flight.start]
  rw [← bytesAtTake _ flight.covered, keeps.bytes, bytesAtTake _ flight.covered]

theorem keepsSame {b b' : CircularBuffer w} (same : b' = b) : b.KeepsA b' := by
  subst same
  exact ⟨rfl, Nat.le_refl _, rfl⟩

theorem disconnectRequestSends {dr lastError} (h : x.disconnectRequest dr lastError = .ok y) :
    y.sends = x.sends ∧ y.session.mSendBuffer = x.session.mSendBuffer ∧
      y.session.mSendPendingCount = x.session.mSendPendingCount ∧ y.issued = x.issued := by
  rcases disconnectRequestOk h with ⟨_, rfl⟩ | ⟨_, _, c, rfl, ⟨_, rfl⟩ | ⟨_, rfl⟩⟩
  · exact ⟨rfl, rfl, rfl, rfl⟩
  · exact ⟨by simp [sends, opened, setConnected, fresh], rfl, rfl, rfl⟩
  · exact ⟨by simp [sends, opened, closed, setConnected, setRefCount], rfl, rfl, rfl⟩

inductive Effect (x : World w) : Action × Option Bool → World w → Prop where
  | kept {a : Action × Option Bool} {y} (calls : ∀ data, a ≠ (.postSend data, some true))
      (completes : ∀ c n, a.1 ≠ .completion c n) (sends : y.sends = x.sends)
      (issued : y.issued = x.issued) (pending : y.session.mSendPendingCount = x.session.mSendPendingCount)
      (buffer : y.session.mSendBuffer = x.session.mSendBuffer ∨
        y.session.mSendBuffer = x.session.mSendBuffer.getFreeSpaceSize.2) : Effect x a y
  | appended (data : List UInt8) (room : data.length ≤ x.session.mSendBuffer.getFreeSpaceSize.1) :
      Effect x (.postSend data, some true) (x.setSendBuffer (x.session.mSendBuffer.append data))
  | posted (r : WsaResult) (lastError : Nat) (out : Option Bool)
      (some : x.session.mSendBuffer.getContiguiousBytes ≠ 0) (idle : x.session.mSendPendingCount ≤ 0) :
      Effect x (.flushSend r lastError, out)
        (((x.opened x.sendContext).issue x.sendContext).setSendPending (x.session.mSendPendingCount + 1))
  | removed (c : OverlappedIOContext) (n : Nat) (out : Option Bool) (mem : c ∈ x.live)
      (kind : c.mIoType = .ioSend) (some : 0 < n) (part : n ≤ c.mWsaBuf.len) :
      Effect x (.completion c n, out) ((x.sendCompletion n).closed c)

theorem stepEffect {a : Action × Option Bool} (h : SendStep x a y) : x.Effect a y := by
  obtain ⟨act, out⟩ := a
  obtain ⟨⟨enabled, ran⟩, ofPipeline⟩ := h
  cases act with
  | postSend data =>
    obtain ⟨b, did, rfl⟩ := returningBoolOk ran
    rcases postSendOk (Except.ok.inj did) with ⟨_, rfl, rfl⟩ | ⟨_, ⟨_, rfl, rfl⟩ | ⟨room, rfl, rfl⟩⟩
    · exact .kept (by simp) (by simp) rfl rfl rfl (.inl rfl)
    · exact .kept (by simp) (by simp) rfl rfl rfl (.inr rfl)
    · exact .appended data room
  | flushSend r lastError =>
    obtain ⟨b, did, rfl⟩ := returningBoolOk ran
    rcases flushSendOk did with ⟨rfl, _⟩ | ⟨_, some, idle, _, ⟨_, _, rfl⟩ | ⟨_, _, disconnected⟩⟩
    · exact .kept (by simp) (by simp) rfl rfl rfl (.inl rfl)
    · exact .posted r lastError _ some idle
    · obtain ⟨sends, buffer, pending, issued⟩ := disconnectRequestSends disconnected
      refine .kept (by simp) (by simp) ?_ issued pending (.inl buffer)
      rw [sends]
      simp [World.sends, closed, opened, setRefCount]
  | completion c n =>
    obtain ⟨kind, some, part⟩ := ofPipeline
    rcases completionOk (returningOk ran).1 with ⟨_, rfl⟩ | ⟨other, _⟩ | ⟨other, _⟩ | ⟨other, _⟩
    · exact .removed c n out enabled kind some part
    · rw [kind] at other
      contradiction
    · rw [kind] at other
      contradiction
    · contradiction
  | _ => exact absurd ofPipeline id

theorem Pipeline.sendContext (line : x.Pipeline)
    (some : x.session.mSendBuffer.getContiguiousBytes ≠ 0) :
    x.sendContext.mWsaBuf.buf = Option.some x.session.mSendBuffer.mARegionPointer ∧
      x.sendContext.mWsaBuf.len ≤ x.session.mSendBuffer.mARegionSize := by
  have inA := line.valid.contiguousA
  refine ⟨if_pos (by omega), ?_⟩
  simp only [World.sendContext, fresh, inA]
  exact Nat.mod_le _ _

theorem postedSends (none : x.sends = []) (pending : Int) :
    (((x.opened x.sendContext).issue x.sendContext).setSendPending pending).sends = [x.sendContext] := by
  have kind : x.sendContext.mIoType = .ioSend := rfl
  have rest : x.live.filter (fun c => c.mIoType = .ioSend) = [] := none
  simp only [sends, opened, issue, setSendPending, List.filter_cons, kind, decide_true, if_true, rest]

theorem Pipeline.completing (line : x.Pipeline) {c : OverlappedIOContext} (mem : c ∈ x.live)
    (kind : c.mIoType = .ioSend) :
    x.sends = [c] ∧ x.session.mSendPendingCount = 1 ∧ x.InFlight c := by
  have sending : c ∈ x.sends := List.mem_filter.mpr ⟨mem, by simp [kind]⟩
  rcases line.sending with ⟨none, _⟩ | ⟨d, one, pending, flight⟩
  · rw [none] at sending
    exact absurd sending List.not_mem_nil
  · rw [one] at sending
    cases List.mem_singleton.mp sending
    exact ⟨one, pending, flight⟩

theorem Pipeline.partFits (line : x.Pipeline) {c : OverlappedIOContext} (flight : x.InFlight c)
    {n : Nat} (part : n ≤ c.mWsaBuf.len) :
    n ≤ x.session.mSendBuffer.mARegionSize ∧ n < 2 ^ w := by
  have covered := flight.covered
  have fits := line.valid.aFits
  have capacity := line.valid.capacityFits
  exact ⟨by omega, by omega⟩

theorem stepPipeline (x : World w) (a : Action × Option Bool) (y : World w) (line : x.Pipeline)
    (h : SendStep x a y) : y.Pipeline := by
  have ids := stepIds x a y line.ids h.1
  cases stepEffect h with
  | kept _ _ sends issued pending buffer =>
    have keeps : x.session.mSendBuffer.KeepsA y.session.mSendBuffer := by
      rcases buffer with same | queried
      · exact keepsSame same
      · rw [queried]
        exact x.session.mSendBuffer.getFreeSpaceSizeKeepsA
    refine ⟨ids, ?_, ?_⟩
    · rcases buffer with same | queried
      · rw [same]
        exact line.valid
      · rw [queried]
        exact line.valid.getFreeSpaceSizeValid
    · rw [sends, pending]
      rcases line.sending with idle | ⟨c, one, count, flight⟩
      · exact .inl idle
      · exact .inr ⟨c, one, count, flight.grown (issued ▸ List.Subset.refl _) keeps⟩
  | appended data room =>
    refine ⟨ids, line.valid.appendValid room, ?_⟩
    rcases line.sending with idle | ⟨c, one, count, flight⟩
    · exact .inl idle
    · exact .inr ⟨c, one, count, flight.grown (List.Subset.refl _) (line.valid.appendKeepsA room)⟩
  | posted r lastError out some idle =>
    obtain ⟨start, covered⟩ := line.sendContext some
    rcases line.sending with ⟨none, zero⟩ | ⟨c, _, count, _⟩
    · refine ⟨ids, line.valid, .inr ⟨x.sendContext, ?_, ?_, List.mem_cons_self, start, covered⟩⟩
      · exact postedSends none _
      · show x.session.mSendPendingCount + 1 = 1
        omega
    · omega
  | removed c n out mem kind some part =>
    obtain ⟨one, count, flight⟩ := line.completing mem kind
    obtain ⟨_, fits⟩ := line.partFits flight part
    refine ⟨ids, line.valid.removeValid fits, .inl ⟨?_, ?_⟩⟩
    · have gone : (x.live.erase c).filter (fun c => c.mIoType = .ioSend) = [] := by
        rw [← List.erase_filter]
        have rest : x.live.filter (fun c => c.mIoType = .ioSend) = [c] := one
        rw [rest, List.erase_cons_head]
      exact gone
    · show x.session.mSendPendingCount - 1 = 0
      omega

theorem stepConserves (x : World w) (a : Action × Option Bool) (y : World w) (line : x.Pipeline)
    (h : SendStep x a y) :
    acknowledged ⟨x, a, y⟩ ++ y.session.mSendBuffer.content =
      x.session.mSendBuffer.content ++ accepted ⟨x, a, y⟩ := by
  cases stepEffect h with
  | kept calls completes _ _ _ buffer =>
    have nothing : acknowledged ⟨x, a, y⟩ = [] := by
      unfold acknowledged
      split
      · exact absurd (by assumption) (completes _ _)
      · rfl
    have refused : accepted ⟨x, a, y⟩ = [] := by
      unfold accepted
      split
      · exact absurd (by assumption) (calls _)
      · rfl
    have content : y.session.mSendBuffer.content = x.session.mSendBuffer.content := by
      rcases buffer with same | queried
      · rw [same]
      · rw [queried, line.valid.getFreeSpaceSizeContent]
    simp [nothing, refused, content]
  | appended data room => exact line.valid.appendContent room
  | posted => exact (List.append_nil _).symm
  | removed c n out mem kind some part =>
    obtain ⟨_, _, flight⟩ := line.completing mem kind
    obtain ⟨inA, fits⟩ := line.partFits flight part
    have taken : (x.sendingBytes c).take n = x.session.mSendBuffer.content.take n := by
      simp only [sendingBytes, flight.start, CircularBuffer.content]
      rw [bytesAtTake _ part, List.take_append_of_le_length (by simpa using inA), bytesAtTake _ inA]
    calc (x.sendingBytes c).take n ++ (x.session.mSendBuffer.remove n).content
        = x.session.mSendBuffer.content.take n ++ x.session.mSendBuffer.content.drop n := by
          rw [taken, line.valid.removeContent fits]
      _ = x.session.mSendBuffer.content ++ [] := by
          rw [List.take_append_drop, List.append_nil]

/- A send that is in flight after a step was posted by it or was in flight before, and
then its bytes are as they were. -/
theorem stepInFlight (line : x.Pipeline) {a : Action × Option Bool} (h : SendStep x a y)
    {c : OverlappedIOContext} (known : c ∈ x.constructed) (after : c ∈ y.sends) :
    c ∈ x.sends ∧ y.sendingBytes c = x.sendingBytes c := by
  cases stepEffect h with
  | kept _ _ sends _ _ buffer =>
    have before : c ∈ x.sends := sends ▸ after
    obtain ⟨mem, kind⟩ := List.mem_filter.mp before
    obtain ⟨_, _, flight⟩ := line.completing mem (of_decide_eq_true kind)
    refine ⟨before, flight.sameBytes ?_⟩
    rcases buffer with same | queried
    · exact keepsSame same
    · rw [queried]
      exact x.session.mSendBuffer.getFreeSpaceSizeKeepsA
  | appended data room =>
    obtain ⟨mem, kind⟩ := List.mem_filter.mp after
    obtain ⟨_, _, flight⟩ := line.completing mem (of_decide_eq_true kind)
    exact ⟨after, flight.sameBytes (line.valid.appendKeepsA room)⟩
  | posted r lastError out some idle =>
    refine ⟨?_, rfl⟩
    obtain ⟨mem, kind⟩ := List.mem_filter.mp after
    rcases List.mem_cons.mp mem with rfl | old
    · exact absurd (line.ids.below _ known) (Nat.lt_irrefl _)
    · exact List.mem_filter.mpr ⟨old, kind⟩
  | removed d n out mem kind some part =>
    obtain ⟨one, _, _⟩ := line.completing mem kind
    obtain ⟨left, type⟩ := List.mem_filter.mp after
    have before : c ∈ x.sends := List.mem_filter.mpr ⟨List.mem_of_mem_erase left, type⟩
    rw [one] at before
    cases List.mem_singleton.mp before
    exact absurd left (line.ids.nodup.not_mem_erase)

theorem Pipeline.rangeKept (line : x.Pipeline) {moves} (run : Run SendStep x moves y)
    {c : OverlappedIOContext} (before : c ∈ x.sends) (after : c ∈ y.sends) :
    y.sendingBytes c = x.sendingBytes c := by
  have kept := run.invariant (I := fun z => z.Pipeline ∧ c ∈ z.constructed ∧
    (c ∈ z.sends → z.sendingBytes c = x.sendingBytes c)) ?_
    ⟨line, line.ids.known c (List.mem_filter.mp before).1, fun _ => rfl⟩
  · exact kept.2.2 after
  · rintro z a t ⟨line, known, same⟩ h
    refine ⟨stepPipeline z a t line h, (stepMicros h.1).constructed c known, fun later => ?_⟩
    obtain ⟨earlier, bytes⟩ := stepInFlight line h known later
    exact bytes.trans (same earlier)

theorem bytesConserved {s : Session w} {memory : Nat → UInt8} {buffer : Nat} {capacity : BitVec w}
    (empty : s.mSendBuffer = .create memory buffer capacity) (first : (start s).Pipeline) {moves}
    (run : Run SendStep (start s) moves x) :
    moves.flatMap acknowledged ++ x.session.mSendBuffer.content = moves.flatMap accepted := by
  have conserved := run.conserves (fun x => x.session.mSendBuffer.content) acknowledged accepted
    stepPipeline stepConserves first
  have nothing : (start s).session.mSendBuffer.content = [] := by
    simp [start, empty, CircularBuffer.content, CircularBuffer.create]
  rwa [nothing, List.nil_append] at conserved

theorem sendPipeline (s : Session w) (memory : Nat → UInt8) (buffer : Nat) (capacity : BitVec w)
    (empty : s.mSendBuffer = .create memory buffer capacity) (idle : s.mSendPendingCount = 0)
    (moves : List (Move (World w) (Action × Option Bool))) (x : World w)
    (run : Run SendStep (start s) moves x) :
    (x.session.mSendPendingCount = x.sends.length ∧ x.sends.length ≤ 1 ∧ x.sends ⊆ x.issued) ∧
    (∀ c ∈ x.sends, ∀ later y, Run SendStep x later y → c ∈ y.sends →
      y.sendingBytes c = x.sendingBytes c) ∧
    moves.flatMap acknowledged ++ x.session.mSendBuffer.content = moves.flatMap accepted := by
  have valid : s.mSendBuffer.Valid := empty ▸ CircularBuffer.createValid memory buffer capacity
  have first : (start s).Pipeline := startPipeline valid idle
  have line := run.invariant stepPipeline first
  refine ⟨?_, fun c mem later y run' mem' => line.rangeKept run' mem mem', bytesConserved empty first run⟩
  rcases line.sending with ⟨none, zero⟩ | ⟨c, one, count, flight⟩
  · simp [none, zero]
  · simp [one, count, flight.issued]

theorem sendPipelinePartial : ∃ moves x, Run SendStep (start idleSession) moves x ∧
    x.session.mSendPendingCount = x.sends.length ∧ moves.flatMap accepted = [1, 2, 3, 4] ∧
    moves.flatMap acknowledged ++ x.session.mSendBuffer.content = [1, 2, 3, 4] := by
  have ran : ∃ moves x, Run Step (start idleSession) moves x ∧
      (actions moves).map Prod.fst = [.postSend [1, 2, 3], .flushSend .done 0, .postSend [4],
        .completion ⟨0, .ioSend, ⟨3, some 8192⟩, .drNone⟩ 2] ∧
      moves.flatMap accepted = [1, 2, 3, 4] :=
    ⟨_, _, .more (a := (.postSend [1, 2, 3], some true)) ⟨by simp [Enabled], rfl⟩
      (.more (a := (.flushSend .done 0, some true)) ⟨by simp [Enabled], rfl⟩
      (.more (a := (.postSend [4], some true)) ⟨by simp [Enabled], rfl⟩
      (.more (a := (.completion ⟨0, .ioSend, ⟨3, some 8192⟩, .drNone⟩ 2, none)) ⟨of_decide_eq_true rfl, rfl⟩
      (.done _)))), rfl, rfl⟩
  obtain ⟨moves, x, run, calls, data⟩ := ran
  have ofPipeline : ∀ a ∈ actions moves, OfSendPipeline a.1 := by
    intro a mem
    have taken : a.1 ∈ (actions moves).map Prod.fst := List.mem_map_of_mem mem
    rw [calls] at taken
    simp only [List.mem_cons, List.not_mem_nil, or_false] at taken
    rcases taken with h | h | h | h <;> rw [h] <;> simp [OfSendPipeline]
  have run := run.restrict ofPipeline
  have facts := sendPipeline idleSession _ _ _ rfl rfl moves x run
  exact ⟨moves, x, run, facts.1.1, data, facts.2.2.trans data⟩

end IocpNetwork.MssqlUsage.World
