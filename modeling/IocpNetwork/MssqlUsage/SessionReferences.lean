import IocpNetwork.MssqlUsage.SessionSteps

/-! The reference count of a Session: one for every context that was constructed and
not yet deleted, and the base reference until DisconnectCompletion gives it back. -/
namespace IocpNetwork.MssqlUsage.World
open MachineWords (signed incrementExact decrementExact)
open Runs (Reachable)
open Fallible (bindError mapError)

variable {w : Nat} {x y : World w}

def base (x : World w) : Int := if x.onDisconnect = [] then 1 else 0

def disconnects (contexts : List OverlappedIOContext) : Nat :=
  contexts.countP fun c => c.mIoType = .ioDisconnect

structure Accounted (x : World w) : Prop where
  counted : x.session.mRefCount = x.live.length + x.base
  small : x.session.mRefCount < 2 ^ 31
  connected : x.session.mConnected ≠ 0 → disconnects x.constructed = 0 ∧ x.onDisconnect = []
  once : disconnects x.constructed ≤ 1
  paired : disconnects x.live + x.onDisconnect.length ≤ disconnects x.constructed
  released : x.onRelease = if x.session.mRefCount = 0 then 1 else 0

theorem baseBounds (x : World w) : 0 ≤ x.base ∧ x.base ≤ 1 := by
  unfold base
  split <;> omega

theorem Accounted.nonneg (acc : x.Accounted) : 0 ≤ x.session.mRefCount := by
  have := acc.counted
  have := baseBounds x
  omega

theorem Accounted.held (acc : x.Accounted) (on : x.session.mConnected ≠ 0) :
    x.base = 1 ∧ 1 ≤ x.session.mRefCount ∧ x.onRelease = 0 := by
  have count := acc.counted
  have released := acc.released
  have base : x.base = 1 := if_pos (acc.connected on).2
  have positive : 1 ≤ x.session.mRefCount := by omega
  refine ⟨base, positive, ?_⟩
  rw [released, if_neg (by omega)]

theorem Accounted.decremented (acc : x.Accounted) :
    signed 32 (x.session.mRefCount - 1) = x.session.mRefCount - 1 :=
  decrementExact acc.nonneg acc.small

theorem startAccounted {s : Session w} (one : s.mRefCount = 1) : (start s).Accounted where
  counted := by simp [start, base, one]
  small := by simp [start, one]
  connected := fun _ => ⟨rfl, rfl⟩
  once := Nat.zero_le _
  paired := Nat.le_refl _
  released := by simp [start, one]

theorem Accounted.opened (acc : x.Accounted) (on : x.session.mConnected ≠ 0)
    (countable : x.Countable) {c : OverlappedIOContext} (kind : c.mIoType ≠ .ioDisconnect) :
    (x.opened c).Accounted ∧ (x.opened c).session.mRefCount = x.session.mRefCount + 1 := by
  obtain ⟨exactly, less⟩ := incrementExact acc.nonneg acc.small countable
  obtain ⟨_, positive, released⟩ := acc.held on
  have count := acc.counted
  have same : (x.opened c).session.mRefCount = x.session.mRefCount + 1 := exactly
  have constructed : disconnects (x.opened c).constructed = disconnects x.constructed := by
    simp [disconnects, World.opened, kind]
  have live : disconnects (x.opened c).live = disconnects x.live := by
    simp [disconnects, World.opened, kind]
  refine ⟨?_, same⟩
  exact {
    counted := by
      have base : (x.opened c).base = x.base := rfl
      have length : (x.opened c).live.length = x.live.length + 1 := rfl
      omega
    small := by omega
    connected := fun on' => by rw [constructed]; exact acc.connected on'
    once := by rw [constructed]; exact acc.once
    paired := by rw [constructed, live]; exact acc.paired
    released := by
      rw [if_neg (by omega)]
      exact released }

theorem Accounted.openedDisconnect (acc : x.Accounted) (on : x.session.mConnected ≠ 0)
    (countable : x.Countable) {c : OverlappedIOContext} (kind : c.mIoType = .ioDisconnect) :
    ((x.setConnected 0).opened c).Accounted ∧
      ((x.setConnected 0).opened c).session.mRefCount = x.session.mRefCount + 1 := by
  obtain ⟨exactly, less⟩ := incrementExact acc.nonneg acc.small countable
  obtain ⟨_, positive, released⟩ := acc.held on
  obtain ⟨none, early⟩ := acc.connected on
  have count := acc.counted
  have paired := acc.paired
  have same : ((x.setConnected 0).opened c).session.mRefCount = x.session.mRefCount + 1 := exactly
  have constructed : disconnects ((x.setConnected 0).opened c).constructed =
      disconnects x.constructed + 1 := by
    simp [disconnects, World.opened, setConnected, kind]
  have live : disconnects ((x.setConnected 0).opened c).live = disconnects x.live + 1 := by
    simp [disconnects, World.opened, setConnected, kind]
  refine ⟨?_, same⟩
  exact {
    counted := by
      have base : ((x.setConnected 0).opened c).base = x.base := rfl
      have length : ((x.setConnected 0).opened c).live.length = x.live.length + 1 := rfl
      omega
    small := by omega
    connected := fun on' => absurd rfl on'
    once := by omega
    paired := by
      rw [constructed, live]
      have same : ((x.setConnected 0).opened c).onDisconnect = x.onDisconnect := rfl
      rw [same]
      omega
    released := by
      rw [if_neg (by omega)]
      exact released }

theorem Accounted.closed (acc : x.Accounted) {c : OverlappedIOContext} (mem : c ∈ x.live) :
    (x.closed c).Accounted ∧ (x.closed c).session.mRefCount = x.session.mRefCount - 1 := by
  have count := acc.counted
  have released := acc.released
  have paired := acc.paired
  have small := acc.small
  have bounds := baseBounds x
  have some : 0 < x.live.length := List.length_pos_of_mem mem
  have positive : 1 ≤ x.session.mRefCount := by omega
  have exactly := acc.decremented
  have same : (x.closed c).session.mRefCount = x.session.mRefCount - 1 := exactly
  have length : (x.live.erase c).length = x.live.length - 1 := List.length_erase_of_mem mem
  have live : disconnects (x.live.erase c) ≤ disconnects x.live :=
    List.Sublist.countP_le (List.erase_sublist)
  refine ⟨?_, same⟩
  exact {
    counted := by
      have base : (x.closed c).base = x.base := rfl
      have erased : (x.closed c).live.length = x.live.length - 1 := length
      omega
    small := by omega
    connected := acc.connected
    once := acc.once
    paired := by
      simp only [World.closed]
      exact Nat.le_trans (Nat.add_le_add_right live _) paired
    released := by
      rw [same]
      rw [if_neg (by omega)] at released
      simp only [World.closed, exactly, released] }

theorem Accounted.disconnected (acc : x.Accounted) {c : OverlappedIOContext} (mem : c ∈ x.live)
    (kind : c.mIoType = .ioDisconnect) (dr : DisconnectReason) :
    ((x.baseReleased dr).closed c).Accounted ∧ 2 ≤ x.session.mRefCount := by
  have count := acc.counted
  have released := acc.released
  have paired := acc.paired
  have once := acc.once
  have small := acc.small
  have some : 0 < x.live.length := List.length_pos_of_mem mem
  have live : 0 < disconnects x.live := List.countP_pos_iff.mpr ⟨c, mem, by simp [kind]⟩
  have early : x.onDisconnect = [] := List.eq_nil_of_length_eq_zero (by omega)
  have base : x.base = 1 := if_pos early
  have first := acc.decremented
  have second : signed 32 (x.session.mRefCount - 1 - 1) = x.session.mRefCount - 1 - 1 :=
    decrementExact (by omega) (by omega)
  have length : (x.live.erase c).length = x.live.length - 1 := List.length_erase_of_mem mem
  have fewer : disconnects (x.live.erase c) + 1 = disconnects x.live := by
    have perm := (List.perm_cons_erase mem).countP_eq (fun c => c.mIoType = .ioDisconnect)
    simp only [disconnects, perm]
    simp [kind]
  have same : ((x.baseReleased dr).closed c).session.mRefCount = x.session.mRefCount - 2 := by
    simp only [World.closed, baseReleased, setRefCount, first, second]
    omega
  refine ⟨?_, by omega⟩
  exact {
    counted := by
      have gone : ((x.baseReleased dr).closed c).base = 0 := rfl
      have erased : ((x.baseReleased dr).closed c).live.length = x.live.length - 1 := length
      omega
    small := by omega
    connected := fun on => by
      have none := (acc.connected on).1
      omega
    once := once
    paired := by
      simp only [World.closed, baseReleased, setRefCount, early, List.length_cons, List.length_nil]
      omega
    released := by
      rw [same]
      rw [if_neg (by omega)] at released
      have more : x.session.mRefCount - 1 ≠ 0 := by omega
      have two : x.session.mRefCount - 1 - 1 = x.session.mRefCount - 2 := by omega
      rw [two] at second
      simp only [World.closed, baseReleased, setRefCount, first, if_neg more, released, two, second] }

theorem microAccounted (x y : World w) (acc : x.Accounted) (h : Micro x y) : y.Accounted := by
  cases h with
  | buffers => exact ⟨acc.counted, acc.small, acc.connected, acc.once, acc.paired, acc.released⟩
  | posted c on countable new kind =>
    have opened := (acc.opened on countable kind).1
    exact ⟨opened.counted, opened.small, opened.connected, opened.once, opened.paired, opened.released⟩
  | refused c on countable new kind => exact ((acc.opened on countable kind).1.closed List.mem_cons_self).1
  | disconnecting c on countable new kind => exact (acc.openedDisconnect on countable kind).1
  | undone c on countable new kind =>
    exact ((acc.openedDisconnect on countable kind).1.closed List.mem_cons_self).1
  | finished c mem => exact (acc.closed mem).1
  | disconnected c mem kind => exact (acc.disconnected mem kind _).1

theorem stepAccounted (x : World w) (a : Action × Option Bool) (y : World w) (acc : x.Accounted)
    (h : Step x a y) : y.Accounted := (stepMicros h).invariant microAccounted acc

theorem constructAsserts (x : World w) (c : OverlappedIOContext) :
    x.construct c ≠ .error .releaseRefNegative := by
  intro h
  rcases bindError h with added | ⟨mid, _, last⟩
  · unfold addRef at added
    dsimp only at added
    split at added <;> simp at added
  · cases last

theorem Accounted.deleteAsserts (acc : x.Accounted) {c : OverlappedIOContext} (mem : c ∈ x.live) :
    x.deleteIoContext (some c) ≠ .error .releaseRefNegative := by
  intro h
  have count := acc.counted
  have bounds := baseBounds x
  have some : 0 < x.live.length := List.length_pos_of_mem mem
  have exactly := acc.decremented
  have nonneg : 0 ≤ signed 32 (x.session.mRefCount - 1) := by omega
  rcases bindError h with dropped | ⟨mid, _, last⟩
  · exact releaseRefAsserts nonneg dropped
  · split at last <;> cases last

theorem Accounted.disconnectRequestAsserts (acc : x.Accounted) (dr : DisconnectReason)
    (lastError : Nat) : x.disconnectRequest dr lastError ≠ .error .releaseRefNegative := by
  intro h
  unfold disconnectRequest at h
  split at h
  · cases h
  · rename_i on
    rcases bindError h with made | ⟨mid, made, last⟩
    · exact constructAsserts _ _ made
    · obtain ⟨rfl, countable⟩ := constructOk made
      have opened := (acc.openedDisconnect on countable (c := x.fresh .ioDisconnect ⟨0, none⟩ dr) rfl).1
      rw [if_pos (show socketFalse = lpfnDisconnectEx _ _ _ 0 from rfl)] at last
      split at last
      · exact opened.deleteAsserts List.mem_cons_self last
      · cases last

theorem Accounted.postedAsserts (acc : x.Accounted) (on : x.session.mConnected ≠ 0)
    {c : OverlappedIOContext} (kind : c.mIoType ≠ .ioDisconnect) (r : WsaResult) :
    (do let x ← x.construct c; x.wsaRecv c r) ≠ .error .releaseRefNegative := by
  intro h
  rcases bindError h with made | ⟨mid, made, last⟩
  · exact constructAsserts _ _ made
  · obtain ⟨rfl, countable⟩ := constructOk made
    have opened := (acc.opened on countable kind).1
    unfold wsaRecv at last
    split at last
    · cases last
    · rcases bindError last with gone | ⟨_, _, last⟩
      · exact opened.deleteAsserts List.mem_cons_self gone
      · cases last

theorem Accounted.flushSendAsserts (acc : x.Accounted) (r : WsaResult) (lastError : Nat) :
    x.flushSend r lastError ≠ .error .releaseRefNegative := by
  intro h
  unfold flushSend at h
  split at h
  · rcases bindError h with off | ⟨_, _, last⟩
    · exact acc.disconnectRequestAsserts _ _ off
    · cases last
  · rename_i on
    split at h
    · cases h
    · split at h
      · cases h
      · rcases bindError h with made | ⟨mid, made, last⟩
        · exact constructAsserts _ _ made
        · obtain ⟨rfl, countable⟩ := constructOk made
          have opened := (acc.opened on countable (c := x.sendContext) (by simp [sendContext, fresh])).1
          split at last
          · cases last
          · rcases bindError last with gone | ⟨mid, gone, last⟩
            · exact opened.deleteAsserts List.mem_cons_self gone
            · obtain ⟨rfl, _⟩ := deleteOk gone
              rcases bindError last with off | ⟨_, _, last⟩
              · exact (opened.closed List.mem_cons_self).1.disconnectRequestAsserts _ _ off
              · cases last

theorem Accounted.completionAsserts (acc : x.Accounted) {c : OverlappedIOContext} (mem : c ∈ x.live)
    (n : Nat) : x.completion c n ≠ .error .releaseRefNegative := by
  intro h
  rcases bindError h with handled | ⟨mid, handled, last⟩
  · cases kind : c.mIoType <;> simp only [handler, kind, reduceCtorEq] at handled
    have two := (acc.disconnected mem kind c.mDisconnectReason).2
    have exactly := acc.decremented
    have nonneg : 0 ≤ signed 32 (x.session.mRefCount - 1) := by omega
    exact releaseRefAsserts (x := {x with onDisconnect := c.mDisconnectReason :: x.onDisconnect})
      nonneg handled
  · by_cases kind : c.mIoType = .ioDisconnect
    · simp only [handler, kind] at handled
      obtain ⟨rfl, _⟩ := disconnectCompletionOk handled
      have two := (acc.disconnected mem kind c.mDisconnectReason).2
      have small := acc.small
      have first := acc.decremented
      have second : signed 32 (x.session.mRefCount - 1 - 1) = x.session.mRefCount - 1 - 1 :=
        decrementExact (by omega) (by omega)
      have nonneg : 0 ≤ signed 32 ((x.baseReleased c.mDisconnectReason).session.mRefCount - 1) := by
        simp only [baseReleased, setRefCount, first, second]
        omega
      rcases bindError last with dropped | ⟨mid, _, last⟩
      · exact releaseRefAsserts nonneg dropped
      · split at last <;> cases last
    · have same : mid.Accounted ∧ mid.live = x.live := by
        cases type : c.mIoType <;> simp only [handler, type] at handled
        case ioDisconnect => contradiction
        all_goals cases handled; exact ⟨⟨acc.counted, acc.small, acc.connected, acc.once,
          acc.paired, acc.released⟩, rfl⟩
      exact same.1.deleteAsserts (same.2 ▸ mem) last

theorem Accounted.asserts (acc : x.Accounted) {a : Action} (enabled : x.Enabled a) :
    x.exec a ≠ .error .releaseRefNegative := by
  intro h
  cases a with
  | preRecv r =>
    have failed := mapError h
    unfold World.preRecv at failed
    split at failed
    · cases failed
    · rename_i on
      exact acc.postedAsserts on (by simp [fresh]) r failed
  | postRecv r =>
    have failed := mapError h
    unfold World.postRecv at failed
    split at failed
    · cases failed
    · rename_i on
      dsimp only at failed
      split at failed
      · cases failed
      · have moved : (x.setRecvBuffer x.session.mRecvBuffer.getFreeSpaceSize.2).Accounted :=
          microAccounted _ _ acc (recvBufferMicro x _)
        exact moved.postedAsserts on (by simp [fresh]) r failed
  | postSend data => cases h
  | flushSend r lastError => exact acc.flushSendAsserts r lastError (mapError h)
  | disconnectRequest dr lastError => exact acc.disconnectRequestAsserts dr lastError (mapError h)
  | failedCompletion c lastError =>
    rcases bindError (mapError h) with failed | ⟨mid, disconnected, last⟩
    · exact acc.disconnectRequestAsserts _ _ failed
    · obtain ⟨micros, kept⟩ := disconnectRequestMicros disconnected
      exact (micros.invariant microAccounted acc).deleteAsserts (kept c enabled.1) last
  | completion c n => exact acc.completionAsserts enabled n (mapError h)

theorem Accounted.undone (acc : x.Accounted) (countable : x.Countable) (c : OverlappedIOContext) :
    signed 32 ((x.opened c).session.mRefCount - 1) = x.session.mRefCount := by
  obtain ⟨exactly, less⟩ := incrementExact acc.nonneg acc.small countable
  have nonneg := acc.nonneg
  have same : (x.opened c).session.mRefCount = x.session.mRefCount + 1 := exactly
  rw [same, decrementExact (by omega) (by omega)]
  omega

theorem Accounted.disconnectFailure (acc : x.Accounted) {dr e} (failed : e ≠ wsaIoPending)
    (ran : x.disconnectRequest dr e = .ok y) : y.session.mRefCount = x.session.mRefCount := by
  rcases disconnectRequestOk ran with ⟨_, rfl⟩ | ⟨on, countable, c, rfl, ⟨pending, _⟩ | ⟨_, rfl⟩⟩
  · rfl
  · contradiction
  · exact acc.undone countable (x.fresh .ioDisconnect ⟨0, none⟩ dr)

theorem Accounted.preRecvFailure (acc : x.Accounted) {e b} (failed : e ≠ wsaIoPending)
    (ran : x.preRecv (.socketError e) = .ok (b, y)) :
    b = false ∧ y.session.mRefCount = x.session.mRefCount := by
  rcases preRecvOk ran with ⟨_, off, rfl⟩ | ⟨_, countable, c, rfl, ⟨started, _⟩ | ⟨_, off, rfl⟩⟩
  · exact ⟨off, rfl⟩
  · contradiction
  · exact ⟨off, acc.undone countable _⟩

theorem Accounted.postRecvFailure (acc : x.Accounted) {e b} (failed : e ≠ wsaIoPending)
    (ran : x.postRecv (.socketError e) = .ok (b, y)) :
    b = false ∧ y.session.mRefCount = x.session.mRefCount := by
  rcases postRecvOk ran with ⟨_, off, rfl⟩ |
    ⟨_, z, rfl, ⟨_, off, rfl⟩ | ⟨_, countable, c, rfl, ⟨started, _⟩ | ⟨_, off, rfl⟩⟩⟩
  · exact ⟨off, rfl⟩
  · exact ⟨off, rfl⟩
  · contradiction
  · have moved : (x.setRecvBuffer x.session.mRecvBuffer.getFreeSpaceSize.2).Accounted :=
      microAccounted _ _ acc (recvBufferMicro x _)
    exact ⟨off, moved.undone countable _⟩

theorem Accounted.flushSendFailure (acc : x.Accounted) {e e' b} (failed : e ≠ wsaIoPending)
    (failed' : e' ≠ wsaIoPending) (ran : x.flushSend (.socketError e) e' = .ok (b, y)) :
    y.session.mRefCount = x.session.mRefCount := by
  rcases flushSendOk ran with ⟨rfl, _⟩ | ⟨on, _, _, countable, ⟨started, _⟩ | ⟨_, _, disconnected⟩⟩
  · rfl
  · contradiction
  · have opened := (acc.opened on countable (c := x.sendContext) (by simp [sendContext, fresh])).1
    have closed := (opened.closed List.mem_cons_self).1
    calc y.session.mRefCount = ((x.opened x.sendContext).closed x.sendContext).session.mRefCount :=
          closed.disconnectFailure failed' disconnected
      _ = x.session.mRefCount := acc.undone countable _

def SameReferences (x y : World w) : Prop :=
  y.constructed = x.constructed ∧ y.live = x.live ∧ y.onDisconnect = x.onDisconnect ∧
    y.onRelease = x.onRelease ∧ y.session.mRefCount = x.session.mRefCount ∧
    y.session.mConnected = x.session.mConnected

theorem microReleased (x y z : World w) (empty : x.live = []) (off : x.session.mConnected = 0)
    (same : x.SameReferences y) (h : Micro y z) : x.SameReferences z := by
  obtain ⟨constructed, live, disconnect, release, count, connected⟩ := same
  cases h with
  | buffers => exact ⟨constructed, live, disconnect, release, count, connected⟩
  | posted c on => exact absurd (connected.trans off) on
  | refused c on => exact absurd (connected.trans off) on
  | disconnecting c on => exact absurd (connected.trans off) on
  | undone c on => exact absurd (connected.trans off) on
  | finished c mem => simp [live, empty] at mem
  | disconnected c mem => simp [live, empty] at mem

theorem Accounted.afterRelease (acc : x.Accounted) (released : x.onRelease ≠ 0) :
    x.session.mRefCount = 0 ∧ x.live = [] ∧ x.onDisconnect ≠ [] ∧ x.session.mConnected = 0 := by
  have count := acc.counted
  have bounds := baseBounds x
  have zero : x.session.mRefCount = 0 := by
    by_contra more
    exact released (by rw [acc.released, if_neg more])
  refine ⟨zero, List.eq_nil_of_length_eq_zero (by omega), ?_, ?_⟩
  · intro early
    have base : x.base = 1 := if_pos early
    omega
  · by_contra on
    have held := acc.held on
    omega

structure Balanced (x : World w) : Prop where
  counted : x.session.mRefCount = x.live.length + x.base
  oneDisconnect : disconnects x.constructed ≤ 1
  noAssertion : ∀ a, x.Enabled a → x.exec a ≠ .error .releaseRefNegative
  preRecvFails : ∀ e b y, e ≠ wsaIoPending → x.preRecv (.socketError e) = .ok (b, y) →
    y.session.mRefCount = x.session.mRefCount
  postRecvFails : ∀ e b y, e ≠ wsaIoPending → x.postRecv (.socketError e) = .ok (b, y) →
    y.session.mRefCount = x.session.mRefCount
  flushSendFails : ∀ e e' b y, e ≠ wsaIoPending → e' ≠ wsaIoPending →
    x.flushSend (.socketError e) e' = .ok (b, y) → y.session.mRefCount = x.session.mRefCount
  disconnectFails : ∀ dr e y, e ≠ wsaIoPending → x.disconnectRequest dr e = .ok y →
    y.session.mRefCount = x.session.mRefCount
  releasedOnce : x.onRelease ≤ 1
  releasedLast : x.onRelease ≠ 0 → x.live = [] ∧ x.onDisconnect ≠ [] ∧ x.session.mRefCount = 0 ∧
    ∀ y, Reachable Step x y → x.SameReferences y

theorem Accounted.balanced (acc : x.Accounted) : x.Balanced where
  counted := acc.counted
  oneDisconnect := acc.once
  noAssertion := fun _ enabled => acc.asserts enabled
  preRecvFails := fun _ _ _ failed ran => (acc.preRecvFailure failed ran).2
  postRecvFails := fun _ _ _ failed ran => (acc.postRecvFailure failed ran).2
  flushSendFails := fun _ _ _ _ failed failed' ran => acc.flushSendFailure failed failed' ran
  disconnectFails := fun _ _ _ failed ran => acc.disconnectFailure failed ran
  releasedOnce := by
    rw [acc.released]
    split <;> omega
  releasedLast := fun released => by
    obtain ⟨zero, empty, completed, off⟩ := acc.afterRelease released
    refine ⟨empty, completed, zero, fun y reach => ?_⟩
    exact reach.invariant (I := x.SameReferences)
      (fun y _ z same step =>
        (stepMicros step).invariant (fun y z same h => microReleased x y z empty off same h) same)
      ⟨rfl, rfl, rfl, rfl, rfl, rfl⟩

theorem referencesBalanced (s : Session w) (one : s.mRefCount = 1) (x : World w)
    (reach : Reachable Step (start s) x) : x.Balanced :=
  (reach.invariant stepAccounted (startAccounted one)).balanced

theorem referencesBalancedReleased : ∃ x : World 64,
    Reachable Step (start idleSession) x ∧ x.onRelease = 1 ∧ x.Balanced := by
  have run : ∃ x : World 64, (start idleSession).perform [.preRecv .done,
      .disconnectRequest .drActive wsaIoPending,
      .completion ⟨1, .ioDisconnect, ⟨0, none⟩, .drActive⟩ 0,
      .completion ⟨0, .ioRecvZero, ⟨0, none⟩, .drNone⟩ 0] = some x ∧ x.onRelease = 1 := ⟨_, rfl, rfl⟩
  obtain ⟨x, ran, released⟩ := run
  have reach := performReachable ran
  exact ⟨x, reach, released, referencesBalanced _ rfl x reach⟩

end IocpNetwork.MssqlUsage.World
