import IocpNetwork.MssqlUsage.SessionThreadReferences

/-! A thread that makes a call of a Session without another thread in between does what the
function of the session does. -/
namespace IocpNetwork.MssqlUsage.Handlers
open MachineWords (signed)
open Runs (Reachable)

variable {T : Type*} {w : Nat} {x y : World w} {s s' : Handlers T} {t : T}

structure Agrees {w : Nat} (x : World w) (s : Handlers T) : Prop where
  refCount : s.mRefCount = x.session.mRefCount
  connected : s.mConnected = x.session.mConnected
  live : s.live = x.live
  onDisconnect : s.onDisconnect = x.onDisconnect
  onRelease : s.onRelease = x.onRelease

section Steps
variable [DecidableEq T]

theorem goToSelf (s : Handlers T) (t : T) (pc : Pc) : (s.goTo t pc).pc t = pc := Function.update_self _ _ _

theorem Agrees.goTo (agrees : Agrees x s) (t : T) (pc : Pc) : Agrees x (s.goTo t pc) :=
  ⟨agrees.refCount, agrees.connected, agrees.live, agrees.onDisconnect, agrees.onRelease⟩

def Alone (t : T) (s : Handlers T) (u : T) (s' : Handlers T) : Prop := Step s u s' ∧ u = t

/- Thread `t` comes to `pc` without the others, and leaves what the function leaves. -/
def Does (t : T) (s : Handlers T) (x : World w) (pc : Pc) : Prop :=
  ∃ s', Reachable (Alone t) s s' ∧ Agrees x s' ∧ s'.pc t = pc

theorem Does.first {pc : Pc} (step : Step s t s') (rest : Does t s' x pc) : Does t s x pc := by
  obtain ⟨z, ⟨moves, run⟩, agrees, here⟩ := rest
  exact ⟨z, ⟨_, .more ⟨step, rfl⟩ run⟩, agrees, here⟩

theorem Does.last {pc : Pc} (step : Step s t (s'.goTo t pc)) (agrees : Agrees x s') : Does t s x pc :=
  ⟨s'.goTo t pc, ⟨_, .more ⟨step, rfl⟩ (.done _)⟩, agrees.goTo t pc, goToSelf s' t pc⟩

theorem Does.next {pc pc' : Pc} (inv : s.Inv) (does : Does t s x pc)
    (rest : ∀ s', s'.Inv → Agrees x s' → s'.pc t = pc → Does t s' y pc') : Does t s y pc' := by
  obtain ⟨s', ⟨moves, run⟩, agrees, here⟩ := does
  have inv' := run.invariant (I := Inv) (fun _ _ _ inv h => stepInv inv h.1) inv
  obtain ⟨z, ⟨moves', run'⟩, agrees', there⟩ := rest s' inv' agrees here
  exact ⟨z, ⟨_, run.append run'⟩, agrees', there⟩

def seen (x : World w) : Int × Int × List OverlappedIOContext × List DisconnectReason × Nat :=
  (x.session.mRefCount, x.session.mConnected, x.live, x.onDisconnect, x.onRelease)

omit [DecidableEq T] in
theorem Agrees.across (agrees : Agrees x s) (same : seen y = seen x) : Agrees y s := by
  simp only [seen, Prod.mk.injEq] at same
  obtain ⟨refCount, connected, live, calls, released⟩ := same
  exact ⟨agrees.refCount.trans refCount.symm, agrees.connected.trans connected.symm, agrees.live.trans live.symm,
    agrees.onDisconnect.trans calls.symm, agrees.onRelease.trans released.symm⟩

theorem Does.across {pc : Pc} (does : Does t s x pc) (same : seen y = seen x) : Does t s y pc := by
  obtain ⟨z, reach, agrees, here⟩ := does
  exact ⟨z, reach, agrees.across same, here⟩

omit [DecidableEq T] in
theorem Agrees.books (agrees : Agrees x s) (inFlight kept : List OverlappedIOContext) (requested : Nat) :
    Agrees x {s with inFlight := inFlight, kept := kept, requested := requested} :=
  ⟨agrees.refCount, agrees.connected, agrees.live, agrees.onDisconnect, agrees.onRelease⟩

omit [DecidableEq T] in
theorem Agrees.opened (agrees : Agrees x s) (c : OverlappedIOContext) : Agrees (x.opened c) (s.addRef c) :=
  ⟨congrArg (fun n => signed 32 (n + 1)) agrees.refCount, agrees.connected, congrArg (c :: ·) agrees.live,
    agrees.onDisconnect, agrees.onRelease⟩

theorem deleteAlone (agrees : Agrees x s) (inv : s.Inv) {c new : OverlappedIOContext}
    (here : s.pc t = .deleting c new) : Does t s (x.closed new) (notPosted c new.mIoType) := by
  have nonneg := inv.releasing (t := t) (by rw [here]; trivial)
  have more := inv.refused here
  have deleted := Step.deleteRefused s t c new here nonneg
  rw [afterReleaseMore more] at deleted
  refine .last deleted ⟨congrArg (fun n => signed 32 (n - 1)) agrees.refCount, agrees.connected,
    congrArg (List.erase · new) agrees.live, agrees.onDisconnect, ?_⟩
  rw [agrees.refCount] at more
  exact agrees.onRelease.trans (if_neg more).symm

theorem postAlone (agrees : Agrees x s) (inv : s.Inv) (countable : x.Countable) {c new : OverlappedIOContext}
    {ioType : IoType} (here : s.pc t = .constructing c ioType) (kind : new.mIoType = ioType)
    (apart : new ∉ x.live) :
    Does t s (x.opened new) (.handling c) ∧ Does t s ((x.opened new).closed new) (notPosted c ioType) := by
  have made : Step s t ((s.addRef new).goTo t (.posting c new)) := by
    refine .construct s t c new ioType here kind (agrees.live ▸ apart) ?_
    rw [agrees.refCount]
    exact countable
  have opened := (agrees.opened new).goTo t (.posting c new)
  have posting := goToSelf (s.addRef new) t (.posting c new)
  constructor
  · have started := Does.last (.started _ t c new posting) (opened.books _ _ _)
    exact started.first made
  · have refused := Step.refused _ t c new posting
    have deleted := deleteAlone (opened.goTo t (.deleting c new)) (stepInv (stepInv inv made) refused)
      (goToSelf _ t _)
    rw [kind] at deleted
    exact (deleted.first refused).first made

theorem requestAlone (agrees : Agrees x s) (inv : s.Inv) (countable : x.Countable) {c new : OverlappedIOContext}
    {dr : DisconnectReason} (here : s.pc t = .disconnecting c dr) (kind : new.mIoType = .ioDisconnect)
    (reason : new.mDisconnectReason = dr) (apart : new ∉ x.live) :
    Does t s (x.opened new) (.handling c) ∧ Does t s ((x.opened new).closed new) (.handling c) := by
  have made : Step s t ({s.addRef new with requested := s.requested + 1}.goTo t (.requesting c new)) := by
    refine .constructDisconnect s t c new dr here kind reason (agrees.live ▸ apart) ?_
    rw [agrees.refCount]
    exact countable
  have opened := ((agrees.opened new).books s.inFlight s.kept (s.requested + 1)).goTo t (.requesting c new)
  have requesting := goToSelf {s.addRef new with requested := s.requested + 1} t (.requesting c new)
  constructor
  · have kept := Does.last (.requestKept _ t c new requesting) (opened.books _ _ _)
    exact kept.first made
  · have failed := Step.requestFailed _ t c new requesting
    have deleted := deleteAlone (opened.goTo t (.deleting c new)) (stepInv (stepInv inv made) failed)
      (goToSelf _ t _)
    rw [kind] at deleted
    exact (deleted.first failed).first made

theorem receiveAlone (agrees : Agrees x s) (inv : s.Inv) (countable : x.Countable) {c new : OverlappedIOContext}
    {ioType : IoType} (here : s.pc t = .constructing c ioType) (kind : new.mIoType = ioType)
    (receives : ioType ≠ .ioSend) (apart : new ∉ x.live) {r : WsaResult} {b : Bool}
    (posted : (r.Started ∧ b = true ∧ y = (x.opened new).issue new) ∨
      (¬ r.Started ∧ b = false ∧ y = (x.opened new).closed new)) : Does t s y (.handling c) := by
  have both := postAlone agrees inv countable here kind apart
  have returns : notPosted c ioType = .handling c := if_neg receives
  rw [returns] at both
  rcases posted with ⟨_, _, rfl⟩ | ⟨_, _, rfl⟩
  · exact both.1.across rfl
  · exact both.2

theorem preRecvAlone (agrees : Agrees x s) (inv : s.Inv) (ids : x.Ids) {c : OverlappedIOContext} {r b}
    (here : s.pc t = .checking c .ioRecvZero) (ran : x.preRecv r = .ok (b, y)) : Does t s y (.handling c) := by
  have checked := Step.isConnected s t c .ioRecvZero here
  rcases World.preRecvOk ran with ⟨off, _, rfl⟩ | ⟨on, countable, new, rfl, posted⟩
  · rw [agrees.connected, if_pos off] at checked
    exact .last checked agrees
  · rw [agrees.connected, if_neg on] at checked
    have apart : x.fresh .ioRecvZero ⟨0, none⟩ .drNone ∉ x.live := ids.notLive (Nat.le_refl _)
    exact (receiveAlone (agrees.goTo t (.constructing c .ioRecvZero)) (stepInv inv checked) countable
      (goToSelf s t _) rfl IoType.noConfusion apart posted).first checked

theorem nothingAlone (agrees : Agrees x s) {c : OverlappedIOContext} {ioType : IoType}
    (here : s.pc t = .constructing c ioType) (buffered : ioType ≠ .ioRecvZero) : Does t s x (.handling c) :=
  .last (.nothingToPost s t c ioType here buffered) agrees

theorem postRecvAlone (agrees : Agrees x s) (inv : s.Inv) (ids : x.Ids) {c : OverlappedIOContext} {r b}
    (here : s.pc t = .checking c .ioRecv) (ran : x.postRecv r = .ok (b, y)) : Does t s y (.handling c) := by
  have checked := Step.isConnected s t c .ioRecv here
  rcases World.postRecvOk ran with ⟨off, _, rfl⟩ | ⟨on, z, queried, outcome⟩
  · rw [agrees.connected, if_pos off] at checked
    exact .last checked agrees
  · rw [agrees.connected, if_neg on] at checked
    have agrees' : Agrees z (s.goTo t (.constructing c .ioRecv)) :=
      (agrees.goTo t _).across (by rw [queried]; rfl)
    rcases outcome with ⟨_, _, rfl⟩ | ⟨_, countable, new, rfl, posted⟩
    · exact (nothingAlone agrees' (goToSelf s t _) IoType.noConfusion).first checked
    · have apart : x.fresh .ioRecv ⟨0, none⟩ .drNone ∉ z.live := by
        rw [queried]
        exact ids.notLive (Nat.le_refl _)
      exact (receiveAlone agrees' (stepInv inv checked) countable (goToSelf s t _) rfl IoType.noConfusion apart
        posted).first checked

theorem disconnectRequestAlone (agrees : Agrees x s) (inv : s.Inv) (ids : x.Ids) {c : OverlappedIOContext}
    {dr lastError} (here : s.pc t = .exchanging c dr) (ran : x.disconnectRequest dr lastError = .ok y) :
    Does t s y (.handling c) := by
  have exchanged := Step.exchange s t c dr here
  have off : Agrees (x.setConnected 0) {s with mConnected := 0} :=
    ⟨agrees.refCount, rfl, agrees.live, agrees.onDisconnect, agrees.onRelease⟩
  rcases World.disconnectRequestOk ran with ⟨zero, rfl⟩ | ⟨on, countable, new, rfl, requested⟩
  · rw [agrees.connected, if_pos zero] at exchanged
    exact .last exchanged ⟨agrees.refCount, zero.symm, agrees.live, agrees.onDisconnect, agrees.onRelease⟩
  · rw [agrees.connected, if_neg on] at exchanged
    have apart : x.fresh .ioDisconnect ⟨0, none⟩ dr ∉ x.live := ids.notLive (Nat.le_refl _)
    have both := requestAlone (off.goTo t (.disconnecting c dr)) (stepInv inv exchanged) countable
      (goToSelf _ t _) rfl rfl apart
    rcases requested with ⟨_, rfl⟩ | ⟨_, rfl⟩
    · exact both.1.first exchanged
    · exact both.2.first exchanged

theorem flushSendAlone (agrees : Agrees x s) (inv : s.Inv) (ids : x.Ids) {c : OverlappedIOContext}
    {r lastError b} (here : s.pc t = .checking c .ioSend) (ran : x.flushSend r lastError = .ok (b, y)) :
    Does t s y (.handling c) := by
  have checked := Step.isConnected s t c .ioSend here
  have disconnects : notPosted c .ioSend = .exchanging c .drSendFlushError := rfl
  rcases World.flushSendOk ran with ⟨rfl, ⟨off, _⟩ | rest⟩ | ⟨on, _, _, countable, outcome⟩
  · rw [agrees.connected, if_pos off, disconnects] at checked
    have same : y.disconnectRequest .drSendFlushError lastError = .ok y := if_pos off
    exact (disconnectRequestAlone (agrees.goTo t _) (stepInv inv checked) ids (goToSelf s t _) same).first checked
  · have on : y.session.mConnected ≠ 0 := by rcases rest with ⟨on, _⟩ | ⟨on, _⟩ <;> exact on
    rw [agrees.connected, if_neg on] at checked
    exact (nothingAlone (agrees.goTo t _) (goToSelf s t _) IoType.noConfusion).first checked
  · rw [agrees.connected, if_neg on] at checked
    have apart : x.sendContext ∉ x.live := ids.notLive (Nat.le_refl _)
    have both := postAlone (agrees.goTo t (.constructing c .ioSend)) (stepInv inv checked) countable
      (goToSelf s t _) rfl apart
    rcases outcome with ⟨_, _, rfl⟩ | ⟨_, _, disconnected⟩
    · refine Does.first checked (both.1.across ?_)
      rfl
    · rw [disconnects] at both
      have ids' := (ids.opened (c := x.sendContext) rfl).closed x.sendContext
      exact (both.2.next (stepInv inv checked) fun s' inv' agrees' there =>
        disconnectRequestAlone agrees' inv' ids' there disconnected).first checked

theorem finishAlone (agrees : Agrees x s) (inv : s.Inv) {c : OverlappedIOContext}
    (here : s.pc t = .finishing c) : Does t s (x.closed c) .waiting := by
  have nonneg := inv.releasing (t := t) (by rw [here]; trivial)
  have deleted := Step.deleteIoContext s t c here nonneg
  have count := congrArg (fun n => signed 32 (n - 1)) agrees.refCount
  have live := congrArg (List.erase · c) agrees.live
  unfold afterRelease at deleted
  by_cases zero : signed 32 (s.mRefCount - 1) = 0
  · rw [if_pos zero] at deleted
    refine .first deleted (.last (.onRelease _ t .waiting (goToSelf (s.releaseRef c) t _))
      ⟨count, agrees.connected, live, agrees.onDisconnect, ?_⟩)
    rw [agrees.refCount] at zero
    exact (congrArg (· + 1) agrees.onRelease).trans (if_pos zero).symm
  · rw [if_neg zero] at deleted
    refine .last deleted ⟨count, agrees.connected, live, agrees.onDisconnect, ?_⟩
    rw [agrees.refCount] at zero
    exact agrees.onRelease.trans (if_neg zero).symm

theorem completionAlone (agrees : Agrees x s) (inv : s.Inv) {c : OverlappedIOContext} {n : Nat}
    (here : s.pc t = .onDisconnect c) (kind : c.mIoType = .ioDisconnect) (ran : x.completion c n = .ok y) :
    Does t s y .waiting := by
  obtain rfl : y = (x.baseReleased c.mDisconnectReason).closed c := by
    rcases World.completionOk ran with ⟨send, _⟩ | ⟨recv, _⟩ | ⟨_, same⟩ | ⟨_, _, other, _⟩
    · cases kind.symm.trans send
    · cases kind.symm.trans recv
    · exact same
    · exact absurd kind other
  have called := Step.onDisconnect s t c here
  have inv' := stepInv inv called
  have releasing := goToSelf {s with onDisconnect := c.mDisconnectReason :: s.onDisconnect} t (.releasingBase c)
  have more := inv'.base releasing
  have released := Step.releaseBase _ t c releasing (inv'.releasing (t := t) (by rw [releasing]; trivial))
  rw [afterReleaseMore more] at released
  refine Does.first called (Does.first released (finishAlone ?_ (stepInv inv' released) (goToSelf _ t _)))
  refine ⟨congrArg (fun n => signed 32 (n - 1)) agrees.refCount, agrees.connected, agrees.live,
    congrArg (c.mDisconnectReason :: ·) agrees.onDisconnect, ?_⟩
  have some : signed 32 (x.session.mRefCount - 1) ≠ 0 := by
    rw [← agrees.refCount]
    exact more
  exact agrees.onRelease.trans (if_neg some).symm

end Steps
end IocpNetwork.MssqlUsage.Handlers
