import IocpNetwork.WinIocp.ClientSession
import IocpNetwork.Lib.Runs
import IocpNetwork.Lib.Fallible

/-! The references of a ClientSession over whole runs. A constructor takes one; since
DeleteIoContext is empty, only DisconnectCompletion ever gives one back. -/
namespace IocpNetwork.WinIocp
open MachineWords (signed signedBelow incrementExact decrementExact)
open Fallible (bindOk mapOk)
open Runs (Run Move actions)

inductive Action where
  | postAccept (lThreadType : ThreadType)
  | acceptCompletion (lThreadType : ThreadType) (calls : AcceptCalls)
  | preRecv
  | postRecv (r : WsaResult)
  | postSend (r : WsaResult)
  | disconnectRequest (dr : DisconnectReason)
  | ioWorkerThread (ret : Int) (transferred : Nat) (context : Option OverlappedIOContext)
      (calls : AcceptCalls) (r : WsaResult)

namespace World
variable {w : Nat} {x y z : World w}

def exec (x : World w) : Action → Except Crash (World w)
  | .postAccept lThreadType => (x.postAccept lThreadType).map Prod.snd
  | .acceptCompletion lThreadType calls => x.acceptCompletion lThreadType calls
  | .preRecv => x.preRecv.map Prod.snd
  | .postRecv r => (x.postRecv r).map Prod.snd
  | .postSend r => (x.postSend r).map Prod.snd
  | .disconnectRequest dr => x.disconnectRequest dr
  | .ioWorkerThread ret transferred context calls r => x.ioWorkerThread ret transferred context calls r

def Enabled (x : World w) : Action → Prop
  | .ioWorkerThread _ _ (some context) _ _ => context ∈ x.live
  | _ => True

def Step (x : World w) (a : Action) (y : World w) : Prop := x.Enabled a ∧ x.exec a = .ok y

def start (s : ClientSession w) : World w where
  session := s
  constructed := []
  live := []
  issued := []
  baseReleases := 0
  handedBack := 0

def InRange (x : World w) : Prop := 0 ≤ x.session.mRefCount ∧ x.session.mRefCount < 2 ^ 31

/- What the count would be without any context and without any release. -/
def owed (x : World w) : Int := x.session.mRefCount - x.constructed.length + x.baseReleases

/- The effect of a call that passes `deleted` contexts to DeleteIoContext and gives back
`released` references. -/
structure Moved (deleted released : Nat) (x y : World w) : Prop where
  range : x.InRange → y.InRange
  owed : x.InRange → y.owed = x.owed
  dropped : y.constructed.length + x.live.length = x.constructed.length + y.live.length + deleted
  releases : y.baseReleases = x.baseReleases + released

theorem Moved.refl (x : World w) : Moved 0 0 x x := ⟨id, fun _ => rfl, rfl, rfl⟩

theorem Moved.trans {d e m n : Nat} (h : Moved d m x y) (tail : Moved e n y z) :
    Moved (d + e) (m + n) x z where
  range := fun inRange => tail.range (h.range inRange)
  owed := fun inRange => (tail.owed (h.range inRange)).trans (h.owed inRange)
  dropped := by
    have first := h.dropped
    have second := tail.dropped
    omega
  releases := by rw [tail.releases, h.releases, Nat.add_assoc]

theorem Moved.deleted {d m : Nat} (h : Moved d m x y) {c : OverlappedIOContext} (mem : c ∈ y.live) :
    Moved (d + 1) m x (y.deleteIoContext c) := by
  refine ⟨h.range, h.owed, ?_, h.releases⟩
  have dropped := h.dropped
  have some : 0 < y.live.length := List.length_pos_of_mem mem
  have erased : (y.deleteIoContext c).live.length = y.live.length - 1 := List.length_erase_of_mem mem
  have constructed : (y.deleteIoContext c).constructed = y.constructed := rfl
  rw [erased, constructed]
  omega

theorem bufferMoved (x : World w) (b : CircularBuffer w) : Moved 0 0 x (x.setBuffer b) :=
  ⟨id, fun _ => rfl, rfl, rfl⟩

theorem connectedMoved (x : World w) (n : Int) : Moved 0 0 x (x.setConnected n) :=
  ⟨id, fun _ => rfl, rfl, rfl⟩

theorem constructMoved {c : OverlappedIOContext} (h : x.construct c = .ok y) :
    Moved 0 0 x y ∧ y.live = c :: x.live := by
  obtain ⟨positive, rfl⟩ := constructOk h
  refine ⟨⟨fun _ => ⟨Int.le_of_lt positive, signedBelow 31 _⟩, fun inRange => ?_, ?_, rfl⟩, rfl⟩
  · obtain ⟨low, high⟩ := inRange
    have exactly := (incrementExact low high positive).1
    simp only [owed, setRefCount, exactly, List.length_cons]
    push_cast
    omega
  · simp only [List.length_cons]
    omega

theorem disconnectRequestMoved {dr} (h : x.disconnectRequest dr = .ok y) :
    Moved 0 0 x y ∧ x.live ⊆ y.live := by
  rcases disconnectRequestOk h with ⟨_, rfl⟩ | ⟨_, made⟩
  · exact ⟨.refl _, List.Subset.refl _⟩
  · obtain ⟨moved, live⟩ := constructMoved made
    refine ⟨(connectedMoved x 0).trans moved, ?_⟩
    rw [live]
    exact List.subset_cons_self _ _

theorem preRecvMoved {b} (h : x.preRecv = .ok (b, y)) : Moved 0 0 x y ∧ x.live ⊆ y.live := by
  rcases preRecvOk h with ⟨_, _, rfl⟩ | ⟨_, _, made⟩
  · exact ⟨.refl _, List.Subset.refl _⟩
  · obtain ⟨moved, live⟩ := constructMoved made
    refine ⟨moved, ?_⟩
    rw [live]
    exact List.subset_cons_self _ _

theorem postAcceptMoved {t b} (h : x.postAccept t = .ok (b, y)) : Moved 0 0 x y := by
  unfold postAccept at h
  split at h <;> try contradiction
  obtain ⟨mid, made, last⟩ := bindOk h
  cases last
  exact (constructMoved made).1

theorem acceptCompletionMoved {t calls} (h : x.acceptCompletion t calls = .ok y) :
    Moved 0 0 x y ∧ x.live ⊆ y.live := by
  rcases acceptCompletionOk h with ⟨_, disconnected⟩ | ⟨_, _, received⟩
  · obtain ⟨moved, live⟩ := disconnectRequestMoved disconnected
    exact ⟨(connectedMoved x 1).trans moved, live⟩
  · obtain ⟨moved, live⟩ := preRecvMoved received
    exact ⟨(connectedMoved x 1).trans moved, live⟩

theorem disconnectCompletionMoved (h : x.disconnectCompletion = .ok y) :
    Moved 0 1 x y ∧ x.live ⊆ y.live := by
  obtain ⟨nonneg, n, rfl⟩ := disconnectCompletionOk h
  have exactly : x.InRange → signed 32 (x.session.mRefCount - 1) = x.session.mRefCount - 1 :=
    fun ⟨low, high⟩ => decrementExact low high
  refine ⟨⟨fun _ => ⟨nonneg, signedBelow 31 _⟩, fun inRange => ?_, rfl, rfl⟩, List.Subset.refl _⟩
  simp only [owed, setRefCount, exactly inRange]
  push_cast
  omega

theorem startedMoved {c : OverlappedIOContext} {r : WsaResult} (h : Moved 0 0 x y)
    (new : y.live = c :: x.live) :
    Moved (if r.Started then 0 else 1) 0 x (y.started c r).2 ∧ x.live ⊆ (y.started c r).2.live := by
  unfold started
  split
  · refine ⟨⟨h.range, h.owed, h.dropped, h.releases⟩, ?_⟩
    show x.live ⊆ y.live
    rw [new]
    exact List.subset_cons_self _ _
  · have erased : (y.deleteIoContext c).live = x.live := by simp [deleteIoContext, new]
    refine ⟨h.deleted (by rw [new]; exact List.mem_cons_self), ?_⟩
    rw [erased]
    exact List.Subset.refl _

def Failing (x : World w) (r : WsaResult) : Prop := x.session.mConnected ≠ 0 ∧ ¬ r.Started
instance (x : World w) (r : WsaResult) : Decidable (x.Failing r) :=
  inferInstanceAs (Decidable (x.session.mConnected ≠ 0 ∧ ¬ r.Started))

theorem failingCount (on : x.session.mConnected ≠ 0) (r : WsaResult) :
    (if x.Failing r then 1 else 0) = if r.Started then 0 else 1 := by
  by_cases started : r.Started <;> simp [Failing, on, started]

theorem refusedMoved (off : x.session.mConnected = 0) (r : WsaResult) :
    Moved (if x.Failing r then 1 else 0) 0 x x ∧ x.live ⊆ x.live := by
  rw [if_neg fun failing => failing.1 off]
  exact ⟨.refl x, List.Subset.refl _⟩

theorem postRecvMoved {r b} (h : x.postRecv r = .ok (b, y)) :
    Moved (if x.Failing r then 1 else 0) 0 x y ∧ x.live ⊆ y.live := by
  unfold postRecv at h
  split at h
  · rename_i off
    cases h
    exact refusedMoved off r
  · rename_i on
    obtain ⟨mid, made, last⟩ := bindOk h
    obtain ⟨moved, live⟩ := constructMoved made
    have buffered := moved.trans (bufferMoved mid x.session.mBuffer.getFreeSpaceSize.2)
    have posted := startedMoved (r := r) buffered live
    have result := congrArg Prod.snd (Except.ok.inj last)
    rw [failingCount on, ← show _ = y from result]
    exact posted

theorem postSendMoved {r b} (h : x.postSend r = .ok (b, y)) :
    Moved (if x.Failing r then 1 else 0) 0 x y ∧ x.live ⊆ y.live := by
  unfold postSend at h
  split at h
  · rename_i off
    cases h
    exact refusedMoved off r
  · rename_i on
    obtain ⟨mid, made, last⟩ := bindOk h
    obtain ⟨moved, live⟩ := constructMoved made
    have posted := startedMoved (r := r) moved live
    have result := congrArg Prod.snd (Except.ok.inj last)
    rw [failingCount on, ← show _ = y from result]
    exact posted

theorem Moved.ofPost {r : WsaResult} (moved : Moved (if x.Failing r then 1 else 0) 0 x y) :
    (¬ x.Failing r ∧ Moved 0 0 x y) ∨ (x.Failing r ∧ ∃ d m, Moved (d + 1) m x y) := by
  by_cases failing : x.Failing r
  · rw [if_pos failing] at moved
    exact .inr ⟨failing, 0, 0, moved⟩
  · rw [if_neg failing] at moved
    exact .inl ⟨failing, moved⟩

theorem dispatchMoved {c n calls r b} (h : x.dispatch c n calls r = .ok (b, y)) :
    ∃ d m, Moved d m x y ∧ x.live ⊆ y.live := by
  cases kind : c.mIoType <;> simp only [dispatch, kind] at h
  case ioNone => contradiction
  case ioSend =>
    unfold managerSendCompletion at h
    dsimp only at h
    have removed : Moved 0 0 x (x.sendCompletion n) := bufferMoved x _
    split at h
    · cases h
      exact ⟨_, _, removed, List.Subset.refl _⟩
    · obtain ⟨moved, live⟩ := preRecvMoved h
      exact ⟨_, _, removed.trans moved, live⟩
  case ioRecv =>
    have committed : Moved 0 0 x (x.recvCompletion n) := bufferMoved x _
    obtain ⟨moved, live⟩ := postSendMoved h
    exact ⟨_, _, committed.trans moved, live⟩
  case ioRecvZero =>
    obtain ⟨moved, live⟩ := preRecvMoved h
    exact ⟨_, _, moved, live⟩
  case ioAccept =>
    obtain ⟨mid, accepted, last⟩ := bindOk h
    cases last
    obtain ⟨moved, live⟩ := acceptCompletionMoved accepted
    exact ⟨_, _, moved, live⟩
  case ioDisconnect =>
    obtain ⟨mid, completed, last⟩ := bindOk h
    cases last
    obtain ⟨moved, live⟩ := disconnectCompletionMoved completed
    exact ⟨_, _, moved, live⟩

theorem handleMoved {c n calls r} (mem : c ∈ x.live) (h : x.handle c n calls r = .ok y) :
    ∃ d m, Moved (d + 1) m x y := by
  obtain ⟨⟨completionOk, mid⟩, handled, rest⟩ := bindOk h
  obtain ⟨d, m, moved, live⟩ := dispatchMoved handled
  cases completionOk with
  | true =>
    cases rest
    exact ⟨d, m, moved.deleted (live mem)⟩
  | false =>
    obtain ⟨last, disconnected, done⟩ := bindOk rest
    cases done
    obtain ⟨moved', live'⟩ := disconnectRequestMoved disconnected
    exact ⟨_, _, (moved.trans moved').deleted (live' (live mem))⟩

theorem ioWorkerThreadMoved {ret n context calls r}
    (enabled : x.Enabled (.ioWorkerThread ret n context calls r))
    (h : x.ioWorkerThread ret n context calls r = .ok y) : ∃ d m, Moved (d + 1) m x y := by
  unfold ioWorkerThread at h
  cases context with
  | none => split at h <;> cases h
  | some c =>
    dsimp only at h
    split at h
    · split at h
      · obtain ⟨mid, disconnected, last⟩ := bindOk h
        cases last
        obtain ⟨moved, live⟩ := disconnectRequestMoved disconnected
        exact ⟨_, _, moved.deleted (live enabled)⟩
      · exact handleMoved enabled h
    · exact handleMoved enabled h

/- The steps that pass a context to DeleteIoContext: every completion, and a post whose
socket call fails at once. -/
def Deletes (x : World w) : Action → Prop
  | .ioWorkerThread _ _ _ _ _ => True
  | .postRecv r | .postSend r => x.Failing r
  | .postAccept _ | .acceptCompletion _ _ | .preRecv | .disconnectRequest _ => False

theorem stepMoved {a : Action} (h : Step x a y) :
    (¬ x.Deletes a ∧ Moved 0 0 x y) ∨ (x.Deletes a ∧ ∃ d m, Moved (d + 1) m x y) := by
  obtain ⟨enabled, ran⟩ := h
  cases a with
  | postAccept t =>
    obtain ⟨⟨b, mid⟩, posted, rfl⟩ := mapOk ran
    exact .inl ⟨id, postAcceptMoved posted⟩
  | acceptCompletion t calls => exact .inl ⟨id, (acceptCompletionMoved ran).1⟩
  | preRecv =>
    obtain ⟨⟨b, mid⟩, received, rfl⟩ := mapOk ran
    exact .inl ⟨id, (preRecvMoved received).1⟩
  | postRecv r =>
    obtain ⟨⟨b, mid⟩, posted, rfl⟩ := mapOk ran
    exact (postRecvMoved posted).1.ofPost
  | postSend r =>
    obtain ⟨⟨b, mid⟩, posted, rfl⟩ := mapOk ran
    exact (postSendMoved posted).1.ofPost
  | disconnectRequest dr => exact .inl ⟨id, (disconnectRequestMoved ran).1⟩
  | ioWorkerThread ret n context calls r => exact .inr ⟨trivial, ioWorkerThreadMoved enabled ran⟩

/- What recycling needs of a step: the count is the base count, one for every live
context, less the releases; a failed post leaves it; and the session is handed back once
the base count is released and no context is live. -/
structure Recycled (base : Nat) (m : Move (World w) Action) : Prop where
  counted : m.after.session.mRefCount = base + m.after.live.length - m.after.baseReleases
  failedPost : ∀ r, ¬ r.Started → m.action = .postRecv r ∨ m.action = .postSend r →
    m.after.session.mRefCount = m.before.session.mRefCount
  handedBack : 0 < base → m.after.baseReleases = base → m.after.live = [] →
    m.after.session.mRefCount = 0 ∧ 0 < m.after.handedBack

structure Undeleted (base : Nat) (x : World w) : Prop where
  range : x.InRange
  owed : x.owed = base
  allLive : x.live.length = x.constructed.length
  unreleased : x.baseReleases = 0

theorem startUndeleted {s : ClientSession w} {base : Nat} (counted : s.mRefCount = base)
    (fits : base < 2 ^ 31) : (start s).Undeleted base where
  range := by simp only [InRange, start]; omega
  owed := by simp [World.owed, start, counted]
  allLive := rfl
  unreleased := rfl

theorem Undeleted.kept {base : Nat} (all : x.Undeleted base) (moved : Moved 0 0 x y) :
    y.Undeleted base where
  range := moved.range all.range
  owed := (moved.owed all.range).trans all.owed
  allLive := by
    have dropped := moved.dropped
    have allLive := all.allLive
    omega
  unreleased := moved.releases.trans all.unreleased

theorem Undeleted.counted {base : Nat} (all : x.Undeleted base) :
    x.session.mRefCount = base + x.live.length - x.baseReleases := by
  have owed := all.owed
  have live := all.allLive
  unfold World.owed at owed
  omega

theorem Undeleted.recycledStep {base : Nat} (all : x.Undeleted base) {a : Action} (h : Step x a y) :
    Recycled base ⟨x, a, y⟩ ↔ ¬ x.Deletes a := by
  rcases stepMoved h with ⟨keeps, moved⟩ | ⟨deletes, d, m, moved⟩
  · refine ⟨fun _ => keeps, fun _ => ?_⟩
    have after := all.kept moved
    refine ⟨after.counted, fun r failed post => ?_, fun some released _ => ?_⟩
    · have off : x.session.mConnected = 0 := by
        by_contra on
        rcases post with rfl | rfl <;> exact keeps ⟨on, failed⟩
      obtain ⟨_, ran⟩ := h
      rcases post with rfl | rfl
      · obtain ⟨_, posted, rfl⟩ := mapOk ran
        rw [postRecv, if_pos off] at posted
        cases posted
        rfl
      · obtain ⟨_, posted, rfl⟩ := mapOk ran
        rw [postSend, if_pos off] at posted
        cases posted
        rfl
    · have unreleased := after.unreleased
      have released : y.baseReleases = base := released
      omega
  · refine ⟨fun recycled => ?_, fun keeps => absurd deletes keeps⟩
    have counted : y.session.mRefCount = base + y.live.length - y.baseReleases := recycled.counted
    have owed := (moved.owed all.range).trans all.owed
    have dropped := moved.dropped
    have allLive := all.allLive
    unfold World.owed at owed
    omega

theorem sessionRecycling (s : ClientSession w) (base : Nat) (counted : s.mRefCount = base)
    (fits : base < 2 ^ 31) (moves : List (Move (World w) Action)) (x : World w)
    (run : Run Step (start s) moves x) :
    (∀ m ∈ moves, Recycled base m) ↔ ∀ m ∈ moves, ¬ m.before.Deletes m.action := by
  refine run.everyMoveIff (I := Undeleted base) (Recycled base) (fun x a => ¬ x.Deletes a)
    (fun x a y all h => all.recycledStep h) (fun x a y all h good => ?_) (startUndeleted counted fits)
  rcases stepMoved h with ⟨_, moved⟩ | ⟨deletes, _⟩
  · exact all.kept moved
  · exact absurd deletes ((all.recycledStep h).mp good)

def connectedSession : ClientSession 64 := ⟨.create (fun _ => 0) 4096 4096#64, 1, 1⟩

theorem sessionRecyclingPosting : ∃ moves x, Run Step (start connectedSession) moves x ∧
    moves.length = 3 ∧ ∀ m ∈ moves, Recycled 1 m := by
  have run : ∃ moves x, Run Step (start connectedSession) moves x ∧ moves.length = 3 ∧
      actions moves = [.preRecv, .postRecv (.socketError wsaIoPending), .disconnectRequest .drActive] :=
    ⟨_, _, .more (a := Action.preRecv) ⟨trivial, rfl⟩
      (.more (a := Action.postRecv (.socketError wsaIoPending)) ⟨trivial, rfl⟩
      (.more (a := Action.disconnectRequest .drActive) ⟨trivial, rfl⟩ (.done _))), rfl, rfl⟩
  obtain ⟨moves, x, run, length, calls⟩ := run
  refine ⟨moves, x, run, length, (sessionRecycling connectedSession 1 rfl (by decide) moves x run).mpr ?_⟩
  intro m mem deletes
  have taken : m.action ∈ actions moves := List.mem_map_of_mem mem
  rw [calls] at taken
  simp only [List.mem_cons, List.not_mem_nil, or_false] at taken
  rcases taken with h | h | h <;> rw [h] at deletes
  · exact deletes
  · exact deletes.2 rfl
  · exact deletes

theorem sessionNeverHandedBack : ¬ ∀ (moves : List (Move (World 64) Action)) x,
    Run Step (start connectedSession) moves x →
    x.session.mRefCount = 1 + x.live.length - x.baseReleases := by
  intro claimed
  have run : ∃ moves x, Run Step (start connectedSession) moves x ∧
      actions moves = [.disconnectRequest .drActive, .ioWorkerThread 1 1
        (some ⟨0, .ioDisconnect, ⟨0, none⟩, .drActive⟩) ⟨true, true, true, true⟩ .done] ∧
      x.session.mRefCount = 1 ∧ x.live = [] ∧ x.baseReleases = 1 :=
    ⟨_, _, .more (a := Action.disconnectRequest .drActive) ⟨trivial, rfl⟩
      (.more (a := Action.ioWorkerThread _ _ (some _) _ _) ⟨List.mem_cons_self, rfl⟩ (.done _)),
      rfl, rfl, rfl, rfl⟩
  obtain ⟨moves, x, run, _, count, live, released⟩ := run
  have equation := claimed moves x run
  rw [count, live, released] at equation
  exact absurd equation (by decide)

end World
end IocpNetwork.WinIocp
