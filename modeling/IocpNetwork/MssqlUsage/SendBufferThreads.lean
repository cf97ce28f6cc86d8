import IocpNetwork.FastSpinLockGuard
import IocpNetwork.MssqlUsage.SendScopes

/-! The send side of a Session with many threads in PostSend, FlushSend and SendCompletion,
and with the socket reading the buffer meanwhile. -/
namespace IocpNetwork.MssqlUsage.SendSide
open ByteMemory (bytesAtTake bytesAtLength)
open FastSpinlockGuard (State Step initial returned scheduleRun scopesAtomic)
open Runs (Run actions actionsCons)

variable {w : Nat} {s m : SendSide w}

structure InFlight (s : SendSide w) (sent : Sent) : Prop where
  start : sent.1.buf = some s.mSendBuffer.mARegionPointer
  covered : sent.1.len ≤ s.mSendBuffer.mARegionSize
  bytes : range s.mSendBuffer sent.1 = sent.2

structure Line (s : SendSide w) (sending : List Sent) : Prop where
  valid : s.mSendBuffer.Valid
  sending : (sending = [] ∧ s.mSendPendingCount = 0) ∨
    ∃ sent, sending = [sent] ∧ s.mSendPendingCount = 1 ∧ s.InFlight sent

theorem InFlight.kept {sent : Sent} (flight : s.InFlight sent) {s' : SendSide w}
    (keeps : s.mSendBuffer.KeepsA s'.mSendBuffer) : s'.InFlight sent where
  start := by rw [keeps.pointer]; exact flight.start
  covered := Nat.le_trans flight.covered keeps.size
  bytes := by
    have bytes := flight.bytes
    simp only [range, flight.start] at bytes ⊢
    rw [← bytes, ← bytesAtTake _ flight.covered, keeps.bytes, bytesAtTake _ flight.covered]

theorem keepsSame (b : CircularBuffer w) : b.KeepsA b := ⟨rfl, Nat.le_refl _, rfl⟩

theorem commitMemory (b : CircularBuffer w) (n : Nat) : (b.commit n).memory = b.memory := by
  unfold CircularBuffer.commit
  split <;> rfl

theorem copiedKeepsA (valid : m.mSendBuffer.Valid) {data done rest : List UInt8} (room : m.Room data)
    (split : done ++ rest = data) : m.mSendBuffer.KeepsA (m.copied done).mSendBuffer := by
  have queried := m.mSendBuffer.getFreeSpaceSizeKeepsA
  have part : done.length ≤ m.mSendBuffer.getFreeSpaceSize.1 := by
    have whole := congrArg List.length split
    rw [List.length_append] at whole
    have room := room
    unfold Room at room
    omega
  have appended := (valid.appendKeepsA part).bytes
  refine ⟨queried.pointer, queried.size, ?_⟩
  rw [CircularBuffer.append, commitMemory] at appended
  exact appended

theorem midKeepsA (valid : m.mSendBuffer.Valid) {call : SendCall} {a : SendPoint × SendSide w}
    (mid : m.Mid call a) (other : ∀ n, call ≠ .sendCompletion n) :
    m.mSendBuffer.KeepsA a.2.mSendBuffer := by
  obtain ⟨point, s⟩ := a
  cases call with
  | sendCompletion n => exact absurd rfl (other n)
  | postSend data =>
    cases point <;> try exact absurd mid id
    case freeSpace d =>
      obtain ⟨_, rfl⟩ := mid
      exact keepsSame _
    case destData d =>
      obtain ⟨_, _, rfl⟩ := mid
      exact m.mSendBuffer.getFreeSpaceSizeKeepsA
    case copy dest rest len =>
      obtain ⟨_, room, done, split, _, rfl⟩ := mid
      exact copiedKeepsA valid room split
  | flushSend r =>
    have same : s.mSendBuffer = m.mSendBuffer := by
      cases point <;> try exact absurd mid id
      case contiguious r' => rw [mid.2]
      case nothingPending => rw [mid.1]
      case pending r' => rw [mid.2.1]
      case length r' => rw [mid.2.1]
      case wsaSend r' len => rw [mid.2.1]
      case readPending sent => rw [mid.1]
      case writePending sent count => rw [mid.1]
      case result sent => rw [mid.1]; rfl
    show m.mSendBuffer.KeepsA s.mSendBuffer
    rw [same]
    exact keepsSame _

theorem sendingInFlight (valid : s.mSendBuffer.Valid) (sends : s.Sends) (n : Int) :
    (s.setPending n).InFlight s.sending := by
  have inA := valid.contiguousA
  have stored := sends.1
  refine ⟨if_pos (by omega), ?_, rfl⟩
  simp only [sending, sendBuf, inA]
  exact Nat.mod_le _ _

theorem flushSendSome {r : WsaResult} {sent : Sent} {result : Bool} {s' : SendSide w}
    (h : s.flushSend r = (some sent, result, s')) :
    s.Sends ∧ sent = s.sending ∧ s' = s.setPending (s.mSendPendingCount + 1) := by
  unfold flushSend at h
  split at h
  · cases h
  · rename_i stored
    split at h
    · cases h
    · rename_i idle
      split at h <;> cases h
      exact ⟨⟨stored, idle⟩, rfl, rfl⟩

theorem flushSendNone {r : WsaResult} {result : Bool} {s' : SendSide w}
    (h : s.flushSend r = (none, result, s')) : s' = s := by
  unfold flushSend at h
  split at h
  · cases h
    rfl
  · split at h
    · cases h
      rfl
    · split at h <;> cases h
      rfl

section Socket
variable {T : Type*}

def Posts : T × SendCall × SendResult → Prop
  | (_, .flushSend _, .flushed (some _) _) | (_, .sendCompletion _, _) => True
  | _ => False

/- What the socket does with the sends of a list of calls: each completes at most once, with
at least one of its bytes and with no more than it has. `acknowledged` is what it took. -/
inductive Socket : List Sent → List (T × SendCall × SendResult) → List UInt8 → List Sent → Prop where
  | idle (sending) : Socket sending [] [] sending
  | posted {sending later acknowledged rest} (t : T) (r : WsaResult) (sent : Sent) (result : Bool)
      (next : Socket (sent :: sending) later acknowledged rest) :
      Socket sending ((t, .flushSend r, .flushed (some sent) result) :: later) acknowledged rest
  | completed {sending later acknowledged rest} (t : T) (n : Nat) {sent : Sent} (mem : sent ∈ sending)
      (some : 0 < n) (part : n ≤ sent.1.len) (next : Socket (sending.erase sent) later acknowledged rest) :
      Socket sending ((t, .sendCompletion n, .completed) :: later) (sent.2.take n ++ acknowledged) rest
  | other {sending later acknowledged rest} (a : T × SendCall × SendResult) (quiet : ¬ Posts a)
      (next : Socket sending later acknowledged rest) : Socket sending (a :: later) acknowledged rest

def accepted (log : List (T × SendCall × SendResult)) : List UInt8 :=
  log.flatMap fun
    | (_, .postSend data, .posted true) => data
    | _ => []

theorem acceptedCons (a : T × SendCall × SendResult) (log : List (T × SendCall × SendResult)) :
    accepted (a :: log) = accepted [a] ++ accepted log := by
  simp only [accepted, List.flatMap_cons, List.flatMap_nil, List.append_nil]

theorem Line.other {sending : List Sent} (line : s.Line sending) {t : T} {call : SendCall}
    {r : SendResult} {s' : SendSide w} (did : (r, s') = s.perform call) (quiet : ¬ Posts (t, call, r)) :
    s'.Line sending ∧ s'.mSendBuffer.content = s.mSendBuffer.content ++ accepted [(t, call, r)] := by
  cases call with
  | sendCompletion n => exact absurd trivial quiet
  | postSend data =>
    by_cases short : s.mSendBuffer.getFreeSpaceSize.1 < data.length
    · have whole : s.postSend data = (false, s.setBuffer s.mSendBuffer.getFreeSpaceSize.2) := if_pos short
      rw [perform, whole] at did
      cases did
      refine ⟨⟨line.valid.getFreeSpaceSizeValid, ?_⟩, ?_⟩
      · rcases line.sending with idle | ⟨sent, one, count, flight⟩
        · exact .inl idle
        · exact .inr ⟨sent, one, count, flight.kept s.mSendBuffer.getFreeSpaceSizeKeepsA⟩
      · exact line.valid.getFreeSpaceSizeContent.trans (List.append_nil _).symm
    · have room := Nat.le_of_not_lt short
      have whole : s.postSend data = (true, s.setBuffer (s.mSendBuffer.append data)) := if_neg short
      rw [perform, whole] at did
      cases did
      refine ⟨⟨line.valid.appendValid room, ?_⟩, ?_⟩
      · rcases line.sending with idle | ⟨sent, one, count, flight⟩
        · exact .inl idle
        · exact .inr ⟨sent, one, count, flight.kept (line.valid.appendKeepsA room)⟩
      · have data : accepted [(t, .postSend data, .posted true)] = data := List.append_nil _
        rw [data]
        exact line.valid.appendContent room
  | flushSend q =>
    cases whole : s.flushSend q with
    | mk sent rest =>
      rw [perform, whole] at did
      cases did
      cases sent with
      | some sent => exact absurd trivial quiet
      | none =>
        have same := flushSendNone whole
        rw [same]
        exact ⟨line, (List.append_nil _).symm⟩

theorem Line.posted {sending : List Sent} (line : s.Line sending) {r : WsaResult} {sent : Sent}
    {result : Bool} {s' : SendSide w} (did : (.flushed (some sent) result, s') = s.perform (.flushSend r)) :
    sending = [] ∧ s'.Line [sent] ∧ s'.mSendBuffer = s.mSendBuffer := by
  cases whole : s.flushSend r with
  | mk first rest =>
    rw [perform, whole] at did
    cases did
    obtain ⟨sends, rfl, last⟩ := flushSendSome whole
    rcases line.sending with ⟨none, zero⟩ | ⟨_, _, one, _⟩
    · refine ⟨none, ?_, by rw [last]; rfl⟩
      rw [last]
      refine ⟨line.valid, .inr ⟨_, rfl, ?_, sendingInFlight line.valid sends _⟩⟩
      show s.mSendPendingCount + 1 = 1
      omega
    · have idle := sends.2
      omega

theorem Line.completed {sending : List Sent} (line : s.Line sending) {sent : Sent}
    (mem : sent ∈ sending) {n : Nat} (part : n ≤ sent.1.len) :
    sending = [sent] ∧ (s.sendCompletion n).Line [] ∧
    sent.2.take n ++ (s.sendCompletion n).mSendBuffer.content = s.mSendBuffer.content := by
  rcases line.sending with ⟨none, _⟩ | ⟨other, one, count, flight⟩
  · rw [none] at mem
    exact absurd mem List.not_mem_nil
  · rw [one] at mem
    cases List.mem_singleton.mp mem
    have covered := flight.covered
    have fits : n < 2 ^ w := by
      have inside := line.valid.aFits
      have capacity := line.valid.capacityFits
      omega
    refine ⟨one, ⟨line.valid.removeValid fits, .inl ⟨rfl, ?_⟩⟩, ?_⟩
    · show s.mSendPendingCount - 1 = 0
      omega
    · have taken : sent.2.take n = s.mSendBuffer.content.take n := by
        have bytes := flight.bytes
        simp only [range, flight.start] at bytes
        rw [← bytes, bytesAtTake _ part, CircularBuffer.content,
          List.take_append_of_le_length (by simp only [bytesAtLength]; omega), bytesAtTake _ (by omega)]
      have content : (s.sendCompletion n).mSendBuffer.content = s.mSendBuffer.content.drop n :=
        line.valid.removeContent fits
      rw [taken, content, List.take_append_drop]

theorem wholeLine {calls} {s' : SendSide w} (run : Run (program.Whole (T := T)) s calls s')
    {sending acknowledged rest} (line : s.Line sending)
    (socket : Socket sending (actions calls) acknowledged rest) : s'.Line rest ∧
      acknowledged ++ s'.mSendBuffer.content = s.mSendBuffer.content ++ accepted (actions calls) := by
  induction run generalizing sending acknowledged with
  | done s =>
    cases socket
    exact ⟨line, (List.append_nil _).symm⟩
  | @more s a after calls s' first _ ih =>
    have did := wholePerforms first
    rw [actionsCons] at socket ⊢
    rw [acceptedCons]
    obtain ⟨t, call, r⟩ := a
    cases socket with
    | posted _ q sent result next =>
      obtain ⟨rfl, line, buffer⟩ := line.posted did
      obtain ⟨last, content⟩ := ih line next
      rw [buffer] at content
      exact ⟨last, content⟩
    | completed _ n mem some part next =>
      obtain ⟨rfl, empty, content⟩ := line.completed mem part
      have same : after = s.sendCompletion n := (Prod.mk.inj did).2
      rw [List.erase_cons_head] at next
      obtain ⟨last, more⟩ := ih (same ▸ empty) next
      refine ⟨last, ?_⟩
      rw [List.append_assoc, more, same, ← List.append_assoc, content]
      rfl
    | other _ quiet next =>
      obtain ⟨line, content⟩ := line.other did quiet
      obtain ⟨last, more⟩ := ih line next
      refine ⟨last, ?_⟩
      rw [more, content, List.append_assoc]

/- Whatever up to 2048 threads interleave in these scopes: no second send is started
while one is in flight, nothing writes to the range that the socket reads until its
completion is handled, what the socket takes is what PostSend accepted, in order, and
between scopes the buffer holds the rest. -/
theorem sendScopes [DecidableEq T] [Fintype T] (few : Fintype.card T ≤ 2048) (memory : Nat → UInt8)
    (buffer : Nat) (capacity : BitVec w) {moves}
    {u : State T SendCall SendResult SendPoint (SendSide w)}
    (run : Run (Step program) (initial ⟨.create memory buffer capacity, 0⟩) moves u)
    {acknowledged sending} (socket : Socket [] (moves.filterMap returned) acknowledged sending) :
    sending.length ≤ 1 ∧ acknowledged <+: accepted (moves.filterMap returned) ∧
    (∀ sent ∈ sending, (∀ t n point, (u.scope t).inside ≠ some (.sendCompletion n, point)) →
      range u.memory.mSendBuffer sent.1 = sent.2) ∧
    ((∀ t, (u.scope t).inside = none) → u.memory.mSendPendingCount = sending.length ∧
      acknowledged ++ u.memory.mSendBuffer.content = accepted (moves.filterMap returned)) := by
  obtain ⟨calls, m, whole, named, idle, partly⟩ := scopesAtomic few _ run
  rw [← named] at socket ⊢
  have start : Line (⟨.create memory buffer capacity, 0⟩ : SendSide w) [] :=
    ⟨CircularBuffer.createValid memory buffer capacity, .inl ⟨rfl, rfl⟩⟩
  obtain ⟨line, content⟩ := wholeLine whole start socket
  have empty : (CircularBuffer.create memory buffer capacity).content = [] := by
    simp [CircularBuffer.content, CircularBuffer.create]
  rw [empty, List.nil_append] at content
  refine ⟨?_, ⟨_, content⟩, fun sent mem calm => ?_, fun nobody => ?_⟩
  · rcases line.sending with ⟨rfl, _⟩ | ⟨sent, rfl, _⟩ <;> simp
  · rcases line.sending with ⟨none, _⟩ | ⟨other, one, _, flight⟩
    · rw [none] at mem
      exact absurd mem List.not_mem_nil
    · rw [one] at mem
      cases List.mem_singleton.mp mem
      by_cases nobody : ∀ t, (u.scope t).inside = none
      · rw [idle nobody]
        exact flight.bytes
      · obtain ⟨t, busy⟩ := not_forall.mp nobody
        obtain ⟨⟨call, point⟩, inside⟩ := Option.ne_none_iff_exists'.mp busy
        have mid := midPartly (partly t call point inside).1
        have keeps := midKeepsA line.valid mid fun n same => calm t n point (by rw [inside, same])
        exact (flight.kept keeps).bytes
  · rw [idle nobody]
    refine ⟨?_, content⟩
    rcases line.sending with ⟨rfl, zero⟩ | ⟨sent, rfl, one, _⟩
    · exact zero
    · exact one

end Socket

def contended : List (Bool × SendCall) :=
  List.replicate 11 (false, .postSend [1, 2, 3]) ++ List.replicate 2 (true, .postSend [4]) ++
    List.replicate 4 (false, .flushSend .done) ++ [(true, .postSend [4])] ++
    List.replicate 8 (false, .flushSend .done) ++ List.replicate 9 (true, .postSend [4]) ++
    List.replicate 8 (false, .sendCompletion 2)

def contendedStart : State Bool SendCall SendResult SendPoint (SendSide 64) :=
  initial ⟨.create (fun _ => 0) 8192 8#64, 0⟩

theorem sendScopesContended : ∃ moves u, Run (Step program) contendedStart moves u ∧
    Socket [] (moves.filterMap returned) [1, 2] [] ∧
    [1, 2] ++ u.memory.mSendBuffer.content = [1, 2, 3, 4] := by
  have run := scheduleRun program contendedStart contended
  have named : (contendedStart.schedule program contended).filterMap returned =
      [(false, .postSend [1, 2, 3], .posted true),
        (false, .flushSend .done, .flushed (some (⟨3, some 8192⟩, [1, 2, 3])) true),
        (true, .postSend [4], .posted true), (false, .sendCompletion 2, .completed)] := by decide
  have socket : Socket [] ((contendedStart.schedule program contended).filterMap returned) [1, 2] [] := by
    rw [named]
    exact .other _ id (.posted _ _ _ _ (.other _ id
      (.completed _ 2 List.mem_cons_self (by decide) (by decide) (.idle _))))
  have facts := sendScopes (by decide) (fun _ => 0) 8192 8#64 run socket
  have rest := (facts.2.2.2 (by decide)).2
  rw [named] at rest
  exact ⟨_, _, run, socket, rest⟩

end IocpNetwork.MssqlUsage.SendSide
