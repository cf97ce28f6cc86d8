import IocpNetwork.WinIocp.SessionRecycling

/-! An iteration of IoWorkerThread on a completion that failed (ret = 0). Only receives
and sends are caught by the failure branch; the other types fall into the switch. -/
namespace IocpNetwork.WinIocp.World
open MachineWords (signed signedExact)
open Fallible (bindOk)

variable {w : Nat} {x y : World w}

def transfers (x : World w) : List OverlappedIOContext :=
  x.constructed.filter fun c => c.mIoType = .ioRecv ∨ c.mIoType = .ioRecvZero ∨ c.mIoType = .ioSend

def disconnects (x : World w) : List OverlappedIOContext :=
  x.constructed.filter fun c => c.mIoType = .ioDisconnect

structure Failed (x y : World w) : Prop where
  disconnected : y.session.mConnected = 0
  issued : y.issued = x.issued
  transfers : y.transfers = x.transfers
  requested : x.session.mConnected ≠ 0 → y.disconnects.length = x.disconnects.length + 1

/- The completions that the switch takes for successful ones. -/
def TakenAsSuccess (x : World w) (context : OverlappedIOContext) (calls : AcceptCalls) : Prop :=
  (context.mIoType = .ioRecvZero ∧ x.session.mConnected ≠ 0) ∨
  (context.mIoType = .ioAccept ∧ calls = ⟨true, true, true, true⟩)

theorem disconnectRequestFailed {dr} (h : x.disconnectRequest dr = .ok y) : x.Failed y := by
  rcases disconnectRequestOk h with ⟨off, rfl⟩ | ⟨_, made⟩
  · exact ⟨off, rfl, rfl, fun on => absurd off on⟩
  · obtain ⟨_, rfl⟩ := constructOk made
    refine ⟨rfl, rfl, ?_, fun _ => ?_⟩
    · simp [transfers, fresh, setConnected]
    · simp [disconnects, fresh, setConnected]

theorem Failed.deleted (failed : x.Failed y) (c : OverlappedIOContext) :
    x.Failed (y.deleteIoContext c) :=
  ⟨failed.disconnected, failed.issued, failed.transfers, failed.requested⟩

theorem constructConnected {c : OverlappedIOContext} (h : x.construct c = .ok y) :
    y.session.mConnected = x.session.mConnected := by
  obtain ⟨_, rfl⟩ := constructOk h
  rfl

theorem acceptCompletionFailed {t calls} (off : x.session.mConnected = 0)
    (h : x.acceptCompletion t calls = .ok y) :
    (calls = ⟨true, true, true, true⟩ ∧ y.session.mConnected = 1) ∨
    (calls ≠ ⟨true, true, true, true⟩ ∧ x.Failed y) := by
  rcases acceptCompletionOk h with ⟨refused, disconnected⟩ | ⟨accepted, _, received⟩
  · have failed := disconnectRequestFailed disconnected
    exact .inr ⟨refused, failed.disconnected, failed.issued, failed.transfers,
      fun on => absurd off on⟩
  · rcases preRecvOk received with ⟨zero, _⟩ | ⟨_, _, made⟩
    · cases zero
    · exact .inl ⟨accepted, constructConnected made⟩

theorem disconnectCompletionFailed (off : x.session.mConnected = 0)
    (h : x.disconnectCompletion = .ok y) : x.Failed y := by
  obtain ⟨_, _, rfl⟩ := disconnectCompletionOk h
  exact ⟨off, rfl, rfl, fun on => absurd off on⟩

theorem failedIteration {c : OverlappedIOContext} {n calls r} (type : c.mIoType ≠ .ioNone)
    (off : c.mIoType = .ioAccept ∨ c.mIoType = .ioDisconnect → x.session.mConnected = 0)
    (h : x.ioWorkerThread 0 n (some c) calls r = .ok y) :
    (x.TakenAsSuccess c calls ∧ y.session.mConnected ≠ 0) ∨
    (¬ x.TakenAsSuccess c calls ∧ x.Failed y) := by
  simp only [ioWorkerThread, true_or, if_true] at h
  cases kind : c.mIoType with
  | ioNone => exact absurd kind type
  | ioRecv | ioSend =>
    simp only [kind, true_or, or_true, if_true] at h
    obtain ⟨mid, requested, last⟩ := bindOk h
    cases last
    exact .inr ⟨by simp [TakenAsSuccess, kind], (disconnectRequestFailed requested).deleted c⟩
  | ioRecvZero =>
    simp only [kind, reduceCtorEq, or_self, if_false, handle, dispatch] at h
    obtain ⟨⟨b, mid⟩, received, last⟩ := bindOk h
    rcases preRecvOk received with ⟨off, rfl, rfl⟩ | ⟨on, rfl, made⟩
    · obtain ⟨mid, requested, last⟩ := bindOk last
      cases last
      exact .inr ⟨by simp [TakenAsSuccess, kind, off], (disconnectRequestFailed requested).deleted c⟩
    · cases last
      exact .inl ⟨.inl ⟨kind, on⟩, fun zero => on ((constructConnected made).symm.trans zero)⟩
  | ioAccept =>
    simp only [kind, reduceCtorEq, or_self, if_false, handle, dispatch] at h
    obtain ⟨⟨b, mid⟩, accepted, last⟩ := bindOk h
    obtain ⟨_, ran, same⟩ := bindOk accepted
    cases same
    cases last
    rcases acceptCompletionFailed (off (.inl kind)) ran with ⟨all, connected⟩ | ⟨some, failed⟩
    · exact .inl ⟨.inr ⟨kind, all⟩, fun zero => by cases connected.symm.trans zero⟩
    · exact .inr ⟨by simp [TakenAsSuccess, kind, some], failed.deleted c⟩
  | ioDisconnect =>
    simp only [kind, reduceCtorEq, or_self, if_false, handle, dispatch] at h
    obtain ⟨⟨b, mid⟩, completed, last⟩ := bindOk h
    obtain ⟨_, ran, same⟩ := bindOk completed
    cases same
    cases last
    have failed := disconnectCompletionFailed (off (.inr kind)) ran
    exact .inr ⟨by simp [TakenAsSuccess, kind], failed.deleted c⟩

theorem constructPasses (low : 0 ≤ x.session.mRefCount) (high : x.session.mRefCount < 2 ^ 31 - 1)
    (c : OverlappedIOContext) : ∃ y, x.construct c = .ok y := by
  have count : signed 32 (x.session.mRefCount + 1) = x.session.mRefCount + 1 :=
    signedExact (w := 31) (by omega) (by omega)
  have positive : x.session.mRefCount + 1 > 0 := by omega
  simp only [construct, addRef, count, if_pos positive]
  exact ⟨_, rfl⟩

theorem disconnectRequestPasses (low : 0 ≤ x.session.mRefCount)
    (high : x.session.mRefCount < 2 ^ 31 - 1) (dr : DisconnectReason) :
    ∃ y, x.disconnectRequest dr = .ok y := by
  unfold disconnectRequest
  split
  · exact ⟨_, rfl⟩
  · exact constructPasses (x := x.setConnected 0) low high _

theorem preRecvPasses (low : 0 ≤ x.session.mRefCount) (high : x.session.mRefCount < 2 ^ 31 - 1) :
    ∃ b y, x.preRecv = .ok (b, y) := by
  unfold preRecv
  split
  · exact ⟨_, _, rfl⟩
  · obtain ⟨y, made⟩ := constructPasses low high (x.fresh .ioRecv ⟨0, none⟩ .drNone)
    rw [made]
    exact ⟨_, _, rfl⟩

theorem acceptCompletionPasses (off : x.session.mConnected = 0) (low : 0 ≤ x.session.mRefCount)
    (high : x.session.mRefCount < 2 ^ 31 - 1) (calls : AcceptCalls) :
    ∃ y, x.acceptCompletion .threadIoWorker calls = .ok y := by
  have fresh : ¬ x.session.mConnected = 1 := by omega
  simp only [acceptCompletion, ne_eq, not_true_eq_false, if_false, fresh]
  split
  · exact disconnectRequestPasses (x := x.setConnected 1) low high _
  · obtain ⟨b, y, received⟩ := preRecvPasses (x := x.setConnected 1) low high
    rw [received]
    exact ⟨_, rfl⟩

theorem disconnectCompletionPasses (some : 1 ≤ x.session.mRefCount)
    (high : x.session.mRefCount < 2 ^ 31 - 1) : ∃ y, x.disconnectCompletion = .ok y := by
  have count : signed 32 (x.session.mRefCount - 1) = x.session.mRefCount - 1 :=
    signedExact (w := 31) (by omega) (by omega)
  have nonneg : x.session.mRefCount - 1 ≥ 0 := by omega
  simp only [disconnectCompletion, releaseRef, count, if_pos nonneg]
  split <;> exact ⟨_, rfl⟩

theorem failedIterationPasses {c : OverlappedIOContext} (n : Nat) (calls : AcceptCalls) (r : WsaResult)
    (type : c.mIoType ≠ .ioNone) (some : 1 ≤ x.session.mRefCount)
    (high : x.session.mRefCount < 2 ^ 31 - 1)
    (off : c.mIoType = .ioAccept ∨ c.mIoType = .ioDisconnect → x.session.mConnected = 0) :
    ∃ y, x.ioWorkerThread 0 n (.some c) calls r = .ok y := by
  have low : 0 ≤ x.session.mRefCount := by omega
  simp only [ioWorkerThread, true_or, if_true]
  cases kind : c.mIoType with
  | ioNone => exact absurd kind type
  | ioRecv | ioSend =>
    obtain ⟨y, requested⟩ := disconnectRequestPasses low high .drCompletionError
    simp only [true_or, or_true, if_true, requested]
    exact ⟨_, rfl⟩
  | ioRecvZero =>
    obtain ⟨b, y, received⟩ := preRecvPasses low high
    simp only [kind, reduceCtorEq, or_self, if_false, handle, dispatch, preReceiveCompletion, received]
    rcases preRecvOk received with ⟨_, rfl, rfl⟩ | ⟨_, rfl, _⟩
    · obtain ⟨z, requested⟩ := disconnectRequestPasses low high .drIoRequestError
      exact ⟨z.deleteIoContext c, by simp [bind, Except.bind, requested]⟩
    · exact ⟨_, rfl⟩
  | ioAccept =>
    obtain ⟨y, accepted⟩ := acceptCompletionPasses (off (.inl kind)) low high calls
    simp only [kind, reduceCtorEq, or_self, if_false, handle, dispatch, accepted]
    exact ⟨_, rfl⟩
  | ioDisconnect =>
    obtain ⟨y, completed⟩ := disconnectCompletionPasses some high
    simp only [kind, reduceCtorEq, or_self, if_false, handle, dispatch, completed]
    exact ⟨_, rfl⟩

theorem failedCompletionHandled (x : World w) (c : OverlappedIOContext) (transferred : Nat)
    (calls : AcceptCalls) (r : WsaResult) (type : c.mIoType ≠ .ioNone)
    (referenced : 1 ≤ x.session.mRefCount)
    (off : c.mIoType = .ioAccept ∨ c.mIoType = .ioDisconnect → x.session.mConnected = 0) :
    (∀ y, x.ioWorkerThread 0 transferred (some c) calls r = .ok y →
      (x.Failed y ↔ ¬ x.TakenAsSuccess c calls)) ∧
    (x.session.mRefCount < 2 ^ 31 - 1 → ∃ y, x.ioWorkerThread 0 transferred (some c) calls r = .ok y) := by
  refine ⟨fun y ran => ?_, fun high => failedIterationPasses transferred calls r type referenced high off⟩
  rcases failedIteration type off ran with ⟨taken, on⟩ | ⟨caught, failed⟩
  · exact ⟨fun failed => absurd failed.disconnected on, fun caught => absurd taken caught⟩
  · exact ⟨fun _ => caught, fun _ => failed⟩

theorem failedCompletionHandledSend : ∃ y : World 64,
    (start connectedSession).ioWorkerThread 0 0 (some ⟨0, .ioSend, ⟨5, some 4096⟩, .drNone⟩)
      ⟨true, true, true, true⟩ .done = .ok y ∧ (start connectedSession).Failed y := by
  obtain ⟨handled, passes⟩ := failedCompletionHandled (start connectedSession)
    ⟨0, .ioSend, ⟨5, some 4096⟩, .drNone⟩ 0 ⟨true, true, true, true⟩ .done (by decide) (by decide)
    (by simp)
  obtain ⟨y, ran⟩ := passes (by decide)
  exact ⟨y, ran, (handled y ran).mpr (by simp [TakenAsSuccess])⟩

theorem failedCompletionIgnored : ∃ y : World 64,
    (start connectedSession).ioWorkerThread 0 0 (some ⟨0, .ioRecvZero, ⟨0, none⟩, .drNone⟩)
      ⟨true, true, true, true⟩ .done = .ok y ∧ y.session.mConnected = 1 ∧ y.transfers.length = 1 ∧
      y.disconnects = [] ∧ ¬ (start connectedSession).Failed y :=
  ⟨_, rfl, rfl, rfl, rfl, fun failed => absurd failed.disconnected (by decide)⟩

end IocpNetwork.WinIocp.World
