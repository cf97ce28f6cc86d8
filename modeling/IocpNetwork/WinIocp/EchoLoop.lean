import IocpNetwork.WinIocp.SessionRecycling
import IocpNetwork.CircularBufferQueue

/-! The echo of a ClientSession: the receive that PostRecv starts, RecvCompletion with the
PostSend behind it, SendCompletion with the PreRecv behind it, as IoWorkerThread makes them.
PreRecv starts nothing, so the application calls PostRecv again when the socket is idle. A
session that is reset and accepted again keeps its buffer. -/
namespace IocpNetwork.WinIocp
open ByteMemory (bytesAt bytesAtLength bytesAtTake)
open Fallible (bindOk)
open Runs (Reachable)

/- A session with its socket. `outstanding` is the operation that was started and whose
completion was not taken; `received` lists the bytes that the socket wrote, `sent` those that
it took and reported. -/
structure EchoLoop (w : Nat) where
  world : World w
  outstanding : Option OverlappedIOContext
  received : List UInt8
  sent : List UInt8

inductive EchoAction where
  | postRecv (r : WsaResult)
  | preRecv
  | disconnectRequest (dr : DisconnectReason)
  | sessionReset
  | acceptCompletion (calls : AcceptCalls)
  | receives (ret : Int) (data : List UInt8) (r : WsaResult)
  | sends (ret : Int) (transferred : Nat)
  | fails (ret : Int) (transferred : Nat)

namespace World
variable {w : Nat} {x y : World w}

def Issues (x y : World w) : Option OverlappedIOContext → Prop
  | none => y.issued = x.issued
  | some c => y.issued = c :: x.issued

/- The parts of SessionReset that other functions read: mBuffer is left as it is. -/
def sessionReset (x : World w) : World w := (x.setConnected 0).setRefCount 0

def writes (x : World w) (p : Nat) (data : List UInt8) : World w :=
  x.setBuffer (x.session.mBuffer.write p data)

end World

namespace EchoLoop
variable {w : Nat}

def start (session : ClientSession w) : EchoLoop w := ⟨World.start session, none, [], []⟩

/- One operation at a time, as the loop keeps it where the application does. A socket that is
given room for some bytes writes at least one, and reports at least one byte of a send. -/
inductive Step : EchoLoop w → EchoAction → EchoLoop w → Prop where
  | postRecv (s : EchoLoop w) (r : WsaResult) (b : Bool) (y : World w) (o : Option OverlappedIOContext)
      (idle : s.outstanding = none) (ran : s.world.postRecv r = .ok (b, y)) (issues : s.world.Issues y o) :
      Step s (.postRecv r) {s with world := y, outstanding := o}
  | preRecv (s : EchoLoop w) (b : Bool) (y : World w) (ran : s.world.preRecv = .ok (b, y)) :
      Step s .preRecv {s with world := y}
  | disconnectRequest (s : EchoLoop w) (dr : DisconnectReason) (y : World w)
      (ran : s.world.disconnectRequest dr = .ok y) : Step s (.disconnectRequest dr) {s with world := y}
  | sessionReset (s : EchoLoop w) (idle : s.outstanding = none) :
      Step s .sessionReset {s with world := s.world.sessionReset}
  | acceptCompletion (s : EchoLoop w) (calls : AcceptCalls) (y : World w) (idle : s.outstanding = none)
      (ran : s.world.acceptCompletion .threadIoWorker calls = .ok y) :
      Step s (.acceptCompletion calls) {s with world := y}
  | receives (s : EchoLoop w) (c : OverlappedIOContext) (p : Nat) (ret : Int) (data : List UInt8)
      (calls : AcceptCalls) (r : WsaResult) (y : World w) (o : Option OverlappedIOContext)
      (busy : s.outstanding = some c) (kind : c.mIoType = .ioRecv) (place : c.mWsaBuf.buf = some p)
      (ok : ret ≠ 0) (positive : 0 < data.length) (room : data.length ≤ c.mWsaBuf.len)
      (ran : (s.world.writes p data).ioWorkerThread ret data.length (some c) calls r = .ok y)
      (issues : s.world.Issues y o) :
      Step s (.receives ret data r) {s with world := y, outstanding := o, received := s.received ++ data}
  | sends (s : EchoLoop w) (c : OverlappedIOContext) (p : Nat) (ret : Int) (transferred : Nat)
      (calls : AcceptCalls) (r : WsaResult) (y : World w) (o : Option OverlappedIOContext)
      (busy : s.outstanding = some c) (kind : c.mIoType = .ioSend) (place : c.mWsaBuf.buf = some p)
      (ok : ret ≠ 0) (positive : 0 < transferred)
      (few : transferred ≤ c.mWsaBuf.len)
      (ran : s.world.ioWorkerThread ret transferred (some c) calls r = .ok y) (issues : s.world.Issues y o) :
      Step s (.sends ret transferred) {s with
        world := y
        outstanding := o
        sent := s.sent ++ bytesAt s.world.session.mBuffer.memory p transferred}
  | fails (s : EchoLoop w) (c : OverlappedIOContext) (ret : Int) (transferred : Nat) (calls : AcceptCalls)
      (r : WsaResult) (y : World w) (o : Option OverlappedIOContext) (busy : s.outstanding = some c)
      (failed : ret = 0 ∨ transferred = 0)
      (ran : s.world.ioWorkerThread ret transferred (some c) calls r = .ok y) (issues : s.world.Issues y o) :
      Step s (.fails ret transferred) {s with world := y, outstanding := o}

end EchoLoop

namespace World
variable {w : Nat} {x y : World w}

structure Same (x y : World w) : Prop where
  buffer : y.session.mBuffer = x.session.mBuffer
  connected : y.session.mConnected = x.session.mConnected
  issued : y.issued = x.issued

theorem constructSame {c : OverlappedIOContext} (h : x.construct c = .ok y) : Same x y := by
  obtain ⟨_, rfl⟩ := constructOk h
  exact ⟨rfl, rfl, rfl⟩

theorem preRecvSame {b} (h : x.preRecv = .ok (b, y)) : Same x y := by
  rcases preRecvOk h with ⟨_, _, rfl⟩ | ⟨_, _, made⟩
  · exact ⟨rfl, rfl, rfl⟩
  · exact constructSame made

theorem disconnectRequestOff {dr} (h : x.disconnectRequest dr = .ok y) :
    y.session.mBuffer = x.session.mBuffer ∧ y.session.mConnected = 0 ∧ y.issued = x.issued := by
  rcases disconnectRequestOk h with ⟨off, rfl⟩ | ⟨_, made⟩
  · exact ⟨rfl, off, rfl⟩
  · have same := constructSame made
    exact ⟨same.buffer, same.connected, same.issued⟩

theorem acceptCompletionBuffer {t calls} (h : x.acceptCompletion t calls = .ok y) :
    y.session.mBuffer = x.session.mBuffer ∧ y.issued = x.issued := by
  rcases acceptCompletionOk h with ⟨_, off⟩ | ⟨_, b, received⟩
  · exact ⟨(disconnectRequestOff off).1, (disconnectRequestOff off).2.2⟩
  · exact ⟨(preRecvSame received).buffer, (preRecvSame received).issued⟩

theorem startedOk {c : OverlappedIOContext} {r : WsaResult} {b : Bool} (h : x.started c r = (b, y)) :
    (b = true ∧ y = x.issue c) ∨ (b = false ∧ y = x.deleteIoContext c) := by
  unfold started at h
  split at h <;> cases h
  · exact .inl ⟨rfl, rfl⟩
  · exact .inr ⟨rfl, rfl⟩

theorem postSendOk {r b} (h : x.postSend r = .ok (b, y)) :
    y.session.mBuffer = x.session.mBuffer ∧ ((b = false ∧ y.issued = x.issued) ∨
      (b = true ∧ ∃ d, y.issued = d :: x.issued ∧ d.mIoType = .ioSend ∧
        d.mWsaBuf = ⟨x.session.mBuffer.getContiguiousBytes % 2 ^ 32, x.session.mBuffer.getBufferStart⟩)) := by
  unfold postSend at h
  split at h
  · cases h
    exact ⟨rfl, .inl ⟨rfl, rfl⟩⟩
  · obtain ⟨mid, made, last⟩ := bindOk h
    have same := constructSame made
    rcases startedOk (Except.ok.inj last) with ⟨rfl, rfl⟩ | ⟨rfl, rfl⟩
    · exact ⟨same.buffer, .inr ⟨rfl, _, congrArg _ same.issued, rfl, rfl⟩⟩
    · exact ⟨same.buffer, .inl ⟨rfl, same.issued⟩⟩

theorem postRecvOk {r b} (h : x.postRecv r = .ok (b, y)) :
    (x.session.mConnected = 0 ∧ Same x y) ∨
    (x.session.mConnected ≠ 0 ∧ y.session.mBuffer = x.session.mBuffer.getFreeSpaceSize.2 ∧
      (y.issued = x.issued ∨ ∃ d, y.issued = d :: x.issued ∧ d.mIoType = .ioRecv ∧
        d.mWsaBuf = ⟨x.session.mBuffer.getFreeSpaceSize.1 % 2 ^ 32,
          some x.session.mBuffer.getFreeSpaceSize.2.getBuffer⟩)) := by
  unfold postRecv at h
  split at h
  · rename_i off
    cases h
    exact .inl ⟨off, rfl, rfl, rfl⟩
  · rename_i on
    obtain ⟨mid, made, last⟩ := bindOk h
    have same := constructSame made
    rcases startedOk (Except.ok.inj last) with ⟨rfl, rfl⟩ | ⟨rfl, rfl⟩
    · exact .inr ⟨on, rfl, .inr ⟨_, congrArg _ same.issued, rfl, rfl⟩⟩
    · exact .inr ⟨on, rfl, .inl same.issued⟩

theorem iterationHandles {c : OverlappedIOContext} {ret n calls r} (ok : ret ≠ 0) (positive : 0 < n) :
    x.ioWorkerThread ret n (some c) calls r = x.handle c n calls r := by
  simp only [ioWorkerThread]
  rw [if_neg (by omega)]

theorem handleOk {c : OverlappedIOContext} {n calls r} (h : x.handle c n calls r = .ok y) :
    ∃ b z, x.dispatch c n calls r = .ok (b, z) ∧ y.session.mBuffer = z.session.mBuffer ∧
      y.issued = z.issued ∧ (b = false → y.session.mConnected = 0) := by
  obtain ⟨⟨b, z⟩, ran, last⟩ := bindOk h
  dsimp only at last
  cases b with
  | true =>
    cases last
    exact ⟨true, z, ran, rfl, rfl, fun none => (by cases none)⟩
  | false =>
    obtain ⟨mid, off, last⟩ := bindOk last
    cases last
    obtain ⟨buffer, connected, issued⟩ := disconnectRequestOff off
    exact ⟨false, z, ran, buffer, issued, fun _ => connected⟩

theorem receiveIteration {c : OverlappedIOContext} {ret n calls r} (kind : c.mIoType = .ioRecv) (ok : ret ≠ 0)
    (positive : 0 < n) (h : x.ioWorkerThread ret n (some c) calls r = .ok y) :
    y.session.mBuffer = x.session.mBuffer.commit n ∧ ((y.session.mConnected = 0 ∧ y.issued = x.issued) ∨
      ∃ d, y.issued = d :: x.issued ∧ d.mIoType = .ioSend ∧ d.mWsaBuf =
        ⟨(x.session.mBuffer.commit n).getContiguiousBytes % 2 ^ 32, (x.session.mBuffer.commit n).getBufferStart⟩) := by
  rw [iterationHandles ok positive] at h
  obtain ⟨b, z, ran, buffer, issued, off⟩ := handleOk h
  unfold dispatch at ran
  simp only [kind] at ran
  obtain ⟨same, posted⟩ := postSendOk ran
  refine ⟨buffer.trans same, ?_⟩
  rcases posted with ⟨none, unchanged⟩ | ⟨_, d, started, type, range⟩
  · exact .inl ⟨off none, issued.trans unchanged⟩
  · exact .inr ⟨d, issued.trans started, type, range⟩

theorem sendIteration {c : OverlappedIOContext} {ret n calls r} (kind : c.mIoType = .ioSend) (ok : ret ≠ 0)
    (positive : 0 < n) (h : x.ioWorkerThread ret n (some c) calls r = .ok y) :
    y.session.mBuffer = x.session.mBuffer.remove n ∧ y.issued = x.issued ∧
      (c.mWsaBuf.len ≠ n → y.session.mConnected = 0) := by
  rw [iterationHandles ok positive] at h
  obtain ⟨b, z, ran, buffer, issued, off⟩ := handleOk h
  unfold dispatch managerSendCompletion at ran
  simp only [kind] at ran
  split at ran
  · cases ran
    exact ⟨buffer, issued, fun _ => off rfl⟩
  · rename_i whole
    have same := preRecvSame ran
    exact ⟨buffer.trans same.buffer, issued.trans same.issued, fun part => absurd part whole⟩

theorem failedIterationOff {c : OverlappedIOContext} {ret n calls r}
    (kind : c.mIoType = .ioRecv ∨ c.mIoType = .ioSend) (failed : ret = 0 ∨ n = 0)
    (h : x.ioWorkerThread ret n (some c) calls r = .ok y) :
    y.session.mBuffer = x.session.mBuffer ∧ y.session.mConnected = 0 ∧ y.issued = x.issued := by
  simp only [ioWorkerThread, if_pos failed, if_pos kind] at h
  obtain ⟨mid, off, last⟩ := bindOk h
  cases last
  have requested := disconnectRequestOff off
  exact requested

theorem Issues.none {o : Option OverlappedIOContext} (issues : x.Issues y o) (same : y.issued = x.issued) :
    o = .none := by
  cases o with
  | none => rfl
  | some d =>
    have more : d :: x.issued = x.issued := issues.symm.trans same
    exact absurd more (List.cons_ne_self d x.issued)

theorem Issues.some {o : Option OverlappedIOContext} {d : OverlappedIOContext} (issues : x.Issues y o)
    (started : y.issued = d :: x.issued) : o = .some d := by
  cases o with
  | none => exact absurd (started.symm.trans issues) (List.cons_ne_self d x.issued)
  | some e => exact congrArg Option.some (List.cons.inj (issues.symm.trans started)).1

end World

namespace EchoLoop
open CircularBuffer
variable {w : Nat} {s s' : EchoLoop w}

abbrev buffer (s : EchoLoop w) : CircularBuffer w := s.world.session.mBuffer

def Working (b : CircularBuffer w) (c : OverlappedIOContext) : Prop :=
  (c.mIoType = .ioRecv ∧ c.mWsaBuf.buf = some b.getBuffer ∧ c.mWsaBuf.len ≤ b.writeSpace) ∨
  (c.mIoType = .ioSend ∧ c.mWsaBuf = ⟨b.getContiguiousBytes % 2 ^ 32, b.getBufferStart⟩)

structure Inv (left : List UInt8) (s : EchoLoop w) : Prop where
  valid : s.buffer.Valid
  conserved : s.sent ++ s.buffer.content = left ++ s.received
  working : ∀ c, s.outstanding = some c → Working s.buffer c

variable {left : List UInt8}

theorem Inv.of {b : CircularBuffer w} (same : s.buffer = b) (valid : b.Valid)
    (conserved : s.sent ++ b.content = left ++ s.received)
    (working : ∀ c, s.outstanding = some c → Working b c) : s.Inv left := by
  subst same
  exact ⟨valid, conserved, working⟩

theorem taken {b : CircularBuffer w} (v : b.Valid) {p n : Nat} (start : b.getBufferStart = some p)
    (few : n ≤ b.getContiguiousBytes) (positive : 0 < n) :
    n < 2 ^ w ∧ bytesAt b.memory p n ++ (b.remove n).content = b.content := by
  have some : b.content ≠ [] := fun none => by
    have zero := v.contiguousPrefix.1 none
    omega
  obtain ⟨q, same, _, rest, front⟩ := v.contiguousPrefix.2 some
  cases start.symm.trans same
  have small : n < 2 ^ w := by
    have fits := v.capacityFits
    have stored := v.storedFits
    unfold getContiguiousBytes at few
    split at few <;> omega
  refine ⟨small, ?_⟩
  rw [v.removeContent small, ← front, ← bytesAtTake b.memory few,
    ← List.take_append_of_le_length (by rwa [bytesAtLength]), List.take_append_drop]

theorem stepInv (inv : s.Inv left) {a : EchoAction} (step : Step s a s') : s'.Inv left := by
  cases step with
  | preRecv b y ran => exact .of (World.preRecvSame ran).buffer inv.valid inv.conserved inv.working
  | disconnectRequest dr y ran =>
    exact .of (World.disconnectRequestOff ran).1 inv.valid inv.conserved inv.working
  | sessionReset idle => exact .of rfl inv.valid inv.conserved inv.working
  | acceptCompletion calls y idle ran =>
    exact .of (World.acceptCompletionBuffer ran).1 inv.valid inv.conserved inv.working
  | postRecv r b y o idle ran issues =>
    rcases World.postRecvOk ran with ⟨off, same⟩ | ⟨on, buffer, started⟩
    · rw [issues.none same.issued]
      exact .of same.buffer inv.valid inv.conserved fun c none => (by cases none)
    · refine .of buffer inv.valid.getFreeSpaceSizeValid ?_ fun c found => ?_
      · rw [inv.valid.getFreeSpaceSizeContent]
        exact inv.conserved
      · rcases started with same | ⟨d, same, kind, range⟩
        · cases found.symm.trans (issues.none same)
        · cases found.symm.trans (issues.some same)
          rw [inv.valid.getFreeSpaceSizeResult] at range
          exact .inl ⟨kind, by rw [range], by rw [range]; exact Nat.mod_le _ _⟩
  | receives c p ret data calls r y o busy kind place ok positive room ran issues =>
    rcases inv.working c busy with ⟨_, range, space⟩ | ⟨send, _⟩
    · cases place.symm.trans range
      have fits := room.trans space
      obtain ⟨buffer, next⟩ := World.receiveIteration kind ok positive ran
      refine .of buffer ((writeValid inv.valid _ data).commitValid fits) ?_ fun d found => ?_
      · have content := inv.valid.writeCommitContent fits
        calc s.sent ++ ((s.buffer.write s.buffer.getBuffer data).commit data.length).content
            = s.sent ++ s.buffer.content ++ data := by rw [content, List.append_assoc]
          _ = left ++ (s.received ++ data) := by rw [inv.conserved, List.append_assoc]
      · rcases next with ⟨_, same⟩ | ⟨e, started, type, sending⟩
        · cases found.symm.trans (issues.none same)
        · cases found.symm.trans (issues.some started)
          exact .inr ⟨type, sending⟩
    · exact absurd (kind.symm.trans send) IoType.noConfusion
  | sends c p ret n calls r y o busy kind place ok positive few ran issues =>
    rcases inv.working c busy with ⟨recv, _⟩ | ⟨_, range⟩
    · exact absurd (kind.symm.trans recv) IoType.noConfusion
    · rw [range] at place few
      obtain ⟨buffer, same, _⟩ := World.sendIteration kind ok positive ran
      obtain ⟨small, front⟩ := taken inv.valid place (few.trans (Nat.mod_le _ _)) positive
      rw [issues.none same]
      refine .of buffer (inv.valid.removeValid small) ?_ fun d none => (by cases none)
      have conserved := inv.conserved
      rwa [← front, ← List.append_assoc] at conserved
  | fails c ret n calls r y o busy failed ran issues =>
    have kind : c.mIoType = .ioRecv ∨ c.mIoType = .ioSend := (inv.working c busy).imp And.left And.left
    obtain ⟨buffer, _, same⟩ := World.failedIterationOff kind failed ran
    rw [issues.none same]
    exact .of buffer inv.valid inv.conserved fun d none => (by cases none)

/- Whatever the socket does and the application calls, and however often the session is reset and
accepted again: what was sent and what is stored is what the buffer held at the start and what
was received. A send stays what was given to the socket until it completes. -/
theorem echoLoop (session : ClientSession w) (valid : session.mBuffer.Valid) (s : EchoLoop w)
    (reach : Reachable Step (start session) s) :
    s.sent ++ s.buffer.content = session.mBuffer.content ++ s.received ∧
    ∀ c p, s.outstanding = some c → c.mIoType = .ioSend → c.mWsaBuf.buf = some p →
      bytesAt s.buffer.memory p c.mWsaBuf.len <+: s.buffer.content := by
  have began : (start session).Inv session.mBuffer.content :=
    ⟨valid, (List.append_nil _).symm, fun c none => (by cases none)⟩
  have inv := reach.invariant (fun _ _ _ inv step => stepInv inv step) began
  refine ⟨inv.conserved, fun c p busy kind place => ?_⟩
  rcases inv.working c busy with ⟨recv, _⟩ | ⟨_, range⟩
  · exact absurd (kind.symm.trans recv) IoType.noConfusion
  · rw [range] at place ⊢
    have few := Nat.mod_le s.buffer.getContiguiousBytes (2 ^ 32)
    rcases Nat.eq_zero_or_pos (s.buffer.getContiguiousBytes % 2 ^ 32) with zero | positive
    · rw [zero]
      exact List.nil_prefix
    · rw [← (taken inv.valid place few positive).2]
      exact List.prefix_append _ _

theorem echoLoopLeft : ∃ s, Reachable Step (start World.connectedSession) s ∧
    s.received = [1, 2, 3, 9] ∧ s.buffer.content = [9] ∧ s.sent = [1, 2, 3] := by
  have ran : ∃ s, Reachable Step (start World.connectedSession) s ∧ s.received = [1, 2, 3, 9] ∧
      s.buffer.content = [9] :=
    ⟨_, ⟨_, .more (.postRecv _ (.socketError wsaIoPending) true _ (some _) rfl rfl rfl)
      (.more (.receives _ _ 4096 1 [1, 2, 3] ⟨true, true, true, true⟩ .done _ (some _) rfl rfl rfl (by decide)
        (by decide) (by decide) rfl rfl)
      (.more (.sends _ _ 4096 1 1 ⟨true, true, true, true⟩ .done _ none rfl rfl rfl (by decide) (by decide)
        (by decide) rfl rfl)
      (.more (.sessionReset _ rfl)
      (.more (.acceptCompletion _ ⟨true, true, true, true⟩ _ rfl rfl)
      (.more (.postRecv _ .done true _ (some _) rfl rfl rfl)
      (.more (.receives _ _ 4099 1 [9] ⟨true, true, true, true⟩ .done _ (some _) rfl rfl rfl (by decide)
        (by decide) (by decide) rfl rfl)
      (.more (.sends _ _ 4097 1 2 ⟨true, true, true, true⟩ .done _ none rfl rfl rfl (by decide) (by decide)
        (by decide) rfl rfl)
      (.done _))))))))⟩, rfl, by decide⟩
  obtain ⟨s, reach, given, left⟩ := ran
  have conserved := (echoLoop World.connectedSession (CircularBuffer.createValid _ _ _) s reach).1
  rw [left, given] at conserved
  exact ⟨s, reach, given, left, List.append_cancel_right (conserved.trans rfl)⟩

def OfConnection : EchoAction → Prop
  | .sessionReset | .acceptCompletion _ => False
  | _ => True

def ConnectionStep (s : EchoLoop w) (a : EchoAction) (s' : EchoLoop w) : Prop := Step s a s' ∧ OfConnection a

def Whole (b : CircularBuffer w) (c : OverlappedIOContext) : Prop :=
  (c.mIoType = .ioRecv ∧ b.mARegionSize = 0 ∧ c.mWsaBuf = ⟨b.mCapacity % 2 ^ 32, some b.mBuffer⟩) ∨
  (c.mIoType = .ioSend ∧ 0 < b.mARegionSize ∧ c.mWsaBuf = ⟨b.mARegionSize, some b.mARegionPointer⟩)

structure Fresh (s : EchoLoop w) : Prop where
  noB : s.buffer.mBRegionPointer = none
  idle : s.outstanding = none → s.world.session.mConnected ≠ 0 → s.buffer.mARegionSize = 0
  whole : ∀ c, s.outstanding = some c → Whole s.buffer c

theorem Fresh.of {b : CircularBuffer w} (same : s.buffer = b) (noB : b.mBRegionPointer = none)
    (idle : s.outstanding = none → s.world.session.mConnected ≠ 0 → b.mARegionSize = 0)
    (whole : ∀ c, s.outstanding = some c → Whole b c) : s.Fresh := by
  subst same
  exact ⟨noB, idle, whole⟩

theorem contentA {b : CircularBuffer w} (noB : b.mBRegionPointer = none) :
    b.content = bytesAt b.memory b.mARegionPointer b.mARegionSize := by
  simp [content, noB]

theorem emptyRoom {b : CircularBuffer w} (v : b.Valid) (zero : b.mARegionSize = 0) :
    b.writeSpace = b.mCapacity ∧ b.getBuffer = b.mBuffer ∧ b.getFreeSpaceSize = (b.mCapacity, b) := by
  obtain ⟨atStart, noB⟩ := v.aEmpty zero
  have stop := v.bufferEnd
  have space : b.writeSpace = b.mCapacity := by
    simp only [writeSpace, noB]
    omega
  refine ⟨space, by simp [getBuffer, noB, zero, atStart], ?_⟩
  rcases v.getFreeSpaceSizeCases with ⟨same, _⟩ | ⟨_, more, _⟩
  · rw [same, space]
  · omega

theorem filled {b : CircularBuffer w} (v : b.Valid) (zero : b.mARegionSize = 0) {data : List UInt8}
    (room : data.length ≤ b.mCapacity) :
    ((b.write b.mBuffer data).commit data.length).mBRegionPointer = none ∧
      ((b.write b.mBuffer data).commit data.length).mARegionSize = data.length := by
  obtain ⟨space, _, _⟩ := emptyRoom v zero
  obtain ⟨_, noB⟩ := v.aEmpty zero
  rw [(writeValid v b.mBuffer data).commitA (n := data.length) noB (by rw [← space] at room; exact room)]
  exact ⟨noB, (congrArg (· + data.length) zero).trans (Nat.zero_add _)⟩

theorem wholeRange {b : CircularBuffer w} (some : 0 < b.mARegionSize) (below : b.mARegionSize < 2 ^ 32) :
    (⟨b.getContiguiousBytes % 2 ^ 32, b.getBufferStart⟩ : WsaBuf) = ⟨b.mARegionSize, .some b.mARegionPointer⟩ := by
  unfold getContiguiousBytes getBufferStart
  rw [if_pos some, if_pos some, Nat.mod_eq_of_lt below]

theorem drained {b : CircularBuffer w} (v : b.Valid) (noB : b.mBRegionPointer = none) {n : Nat}
    (few : n ≤ b.mARegionSize) :
    (b.remove n).mBRegionPointer = none ∧ (b.remove n).mARegionSize = b.mARegionSize - n := by
  have small : n < 2 ^ w := Nat.lt_of_le_of_lt (few.trans v.aFits) v.capacityFits
  have emptyB := v.bNull noB
  rcases v.removeCases small with ⟨_, same⟩ | ⟨_, more, _⟩ | ⟨all, same⟩
  · rw [same]
    exact ⟨noB, rfl⟩
  · omega
  · rw [same]
    exact ⟨rfl, (Nat.sub_eq_zero_of_le (by omega)).symm⟩

theorem stepFresh (inv : s.Inv left) (fresh : s.Fresh) {a : EchoAction} (step : ConnectionStep s a s') :
    s'.Fresh := by
  obtain ⟨step, one⟩ := step
  cases step with
  | preRecv b y ran =>
    have same := World.preRecvSame ran
    exact .of same.buffer fresh.noB (fun none on => fresh.idle none (same.connected ▸ on)) fresh.whole
  | disconnectRequest dr y ran =>
    obtain ⟨buffer, off, _⟩ := World.disconnectRequestOff ran
    exact .of buffer fresh.noB (fun _ on => absurd off on) fresh.whole
  | sessionReset idle => exact one.elim
  | acceptCompletion calls y idle ran => exact one.elim
  | postRecv r b y o idle ran issues =>
    rcases World.postRecvOk ran with ⟨off, same⟩ | ⟨on, buffer, started⟩
    · rw [issues.none same.issued]
      exact .of same.buffer fresh.noB (fun none on => absurd (same.connected.trans off) on)
        fun c none => (by cases none)
    · have zero := fresh.idle idle on
      obtain ⟨_, place, free⟩ := emptyRoom inv.valid zero
      refine .of (buffer.trans (by rw [free])) fresh.noB (fun _ _ => zero) fun c found => ?_
      rcases started with same | ⟨d, same, kind, range⟩
      · cases found.symm.trans (issues.none same)
      · cases found.symm.trans (issues.some same)
        rw [free, place] at range
        exact .inl ⟨kind, zero, range⟩
  | receives c p ret data calls r y o busy kind place ok positive room ran issues =>
    rcases fresh.whole c busy with ⟨_, zero, range⟩ | ⟨send, _⟩
    · rw [range] at place room
      cases place
      have below : data.length < 2 ^ 32 := Nat.lt_of_le_of_lt room (Nat.mod_lt _ (by decide))
      obtain ⟨noB, size⟩ := filled inv.valid zero (room.trans (Nat.mod_le _ _))
      obtain ⟨buffer, next⟩ := World.receiveIteration kind ok positive ran
      refine .of (b := (s.buffer.write s.buffer.mBuffer data).commit data.length) buffer noB (fun none on => ?_)
        fun d found => ?_
      · rcases next with ⟨off, _⟩ | ⟨d, started, _⟩
        · exact absurd off on
        · cases none.symm.trans (issues.some started)
      · rcases next with ⟨_, same⟩ | ⟨e, started, type, sending⟩
        · cases found.symm.trans (issues.none same)
        · cases found.symm.trans (issues.some started)
          have some := positive.trans_eq size.symm
          exact .inr ⟨type, some, sending.trans (wholeRange some (size.trans_lt below))⟩
    · exact absurd (kind.symm.trans send) IoType.noConfusion
  | sends c p ret n calls r y o busy kind place ok positive few ran issues =>
    rcases fresh.whole c busy with ⟨recv, _⟩ | ⟨_, _, range⟩
    · exact absurd (kind.symm.trans recv) IoType.noConfusion
    · obtain ⟨buffer, same, off⟩ := World.sendIteration kind ok positive ran
      rw [range] at few off
      obtain ⟨noB, size⟩ := drained inv.valid fresh.noB few
      rw [issues.none same]
      refine .of buffer noB (fun _ on => ?_) fun d none => (by cases none)
      have whole : s.buffer.mARegionSize = n := by
        by_contra part
        exact on (off part)
      exact size.trans (by rw [whole, Nat.sub_self])
  | fails c ret n calls r y o busy failed ran issues =>
    have kind : c.mIoType = .ioRecv ∨ c.mIoType = .ioSend := (fresh.whole c busy).imp And.left And.left
    obtain ⟨buffer, off, same⟩ := World.failedIterationOff kind failed ran
    rw [issues.none same]
    exact .of buffer fresh.noB (fun _ on => absurd off on) fun d none => (by cases none)

/- On one connection nothing stays behind: whenever the session is connected and the socket idle,
or takes the next bytes, everything received was sent. -/
theorem echoesAll (session : ClientSession w) (valid : session.mBuffer.Valid)
    (empty : session.mBuffer.content = []) (s : EchoLoop w) (reach : Reachable ConnectionStep (start session) s) :
    (s.outstanding = none → s.world.session.mConnected ≠ 0 → s.sent = s.received) ∧
    ∀ c, s.outstanding = some c →
      (c.mIoType = .ioRecv ∧ s.sent = s.received ∧
        c.mWsaBuf = ⟨s.buffer.mCapacity % 2 ^ 32, some s.buffer.mBuffer⟩) ∨
      (c.mIoType = .ioSend ∧ ∃ p, c.mWsaBuf.buf = some p ∧
        s.sent ++ bytesAt s.buffer.memory p c.mWsaBuf.len = s.received) := by
  have zero : session.mBuffer.mARegionSize = 0 := by
    have length := valid.contentLength
    rw [empty, List.length_nil] at length
    omega
  have began : (start session).Inv [] ∧ (start session).Fresh :=
    ⟨⟨valid, empty, fun c none => (by cases none)⟩, (valid.aEmpty zero).2, fun _ _ => zero,
      fun c none => (by cases none)⟩
  obtain ⟨inv, fresh⟩ := reach.invariant (I := fun s => s.Inv [] ∧ s.Fresh)
    (fun _ _ _ inv step => ⟨stepInv inv.1 step.1, stepFresh inv.1 inv.2 step⟩) began
  have conserved := inv.conserved
  rw [contentA fresh.noB, List.nil_append] at conserved
  have emptied : s.buffer.mARegionSize = 0 → s.sent = s.received := fun zero => by
    rw [zero] at conserved
    exact (List.append_nil _).symm.trans conserved
  refine ⟨fun none on => emptied (fresh.idle none on), fun c busy => ?_⟩
  rcases fresh.whole c busy with ⟨recv, zero, range⟩ | ⟨send, _, range⟩
  · exact .inl ⟨recv, emptied zero, range⟩
  · rw [range]
    exact .inr ⟨send, _, rfl, conserved⟩

theorem echoesAllTwice : ∃ s, Reachable ConnectionStep (start World.connectedSession) s ∧
    s.received = [1, 2, 3, 4] ∧ s.sent = [1, 2, 3, 4] := by
  have ran : ∃ s, Reachable ConnectionStep (start World.connectedSession) s ∧ s.received = [1, 2, 3, 4] ∧
      s.outstanding = none ∧ s.world.session.mConnected ≠ 0 :=
    ⟨_, ⟨_, .more ⟨.postRecv _ (.socketError wsaIoPending) true _ (some _) rfl rfl rfl, trivial⟩
      (.more ⟨.receives _ _ 4096 1 [1, 2, 3] ⟨true, true, true, true⟩ .done _ (some _) rfl rfl rfl (by decide)
        (by decide) (by decide) rfl rfl, trivial⟩
      (.more ⟨.sends _ _ 4096 1 3 ⟨true, true, true, true⟩ .done _ none rfl rfl rfl (by decide) (by decide)
        (by decide) rfl rfl, trivial⟩
      (.more ⟨.postRecv _ .done true _ (some _) rfl rfl rfl, trivial⟩
      (.more ⟨.receives _ _ 4096 1 [4] ⟨true, true, true, true⟩ .done _ (some _) rfl rfl rfl (by decide)
        (by decide) (by decide) rfl rfl, trivial⟩
      (.more ⟨.sends _ _ 4096 1 1 ⟨true, true, true, true⟩ .done _ none rfl rfl rfl (by decide) (by decide)
        (by decide) rfl rfl, trivial⟩
      (.done _))))))⟩, rfl, rfl, by decide⟩
  obtain ⟨s, reach, given, idle, on⟩ := ran
  have facts := echoesAll World.connectedSession (CircularBuffer.createValid _ _ _) rfl s reach
  exact ⟨s, reach, given, (facts.1 idle on).trans given⟩

end EchoLoop
end IocpNetwork.WinIocp
