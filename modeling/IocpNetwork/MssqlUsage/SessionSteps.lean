import IocpNetwork.MssqlUsage.Session
import IocpNetwork.Lib.Runs
import IocpNetwork.Lib.Fallible
import Mathlib.Logic.Relation

/-! The atomic steps of a Session and, for each call, everything it can do. -/
namespace IocpNetwork.MssqlUsage
open MachineWords (signed)
open Fallible (bindOk mapOk)
open Runs (Run Reachable actions execute executeRun)

inductive Action where
  | preRecv (r : WsaResult)
  | postRecv (r : WsaResult)
  | postSend (data : List UInt8)
  | flushSend (r : WsaResult) (lastError : Nat)
  | disconnectRequest (dr : DisconnectReason) (lastError : Nat)
  | failedCompletion (context : OverlappedIOContext) (lastError : Nat)
  | completion (context : OverlappedIOContext) (transferred : Nat)

namespace World
variable {w : Nat} {x y : World w}

def returning (result : Except Crash (World w)) : Except Crash (Option Bool × World w) :=
  result.map fun x => (none, x)

def returningBool (result : Except Crash (Bool × World w)) : Except Crash (Option Bool × World w) :=
  result.map fun (b, x) => (some b, x)

def exec (x : World w) : Action → Except Crash (Option Bool × World w)
  | .preRecv r => returningBool (x.preRecv r)
  | .postRecv r => returningBool (x.postRecv r)
  | .postSend data => returningBool (.ok (x.postSend data))
  | .flushSend r lastError => returningBool (x.flushSend r lastError)
  | .disconnectRequest dr lastError => returning (x.disconnectRequest dr lastError)
  | .failedCompletion context lastError => returning (x.failedCompletion context lastError)
  | .completion context transferred => returning (x.completion context transferred)

/- Only live contexts complete; the error branch is for receives and sends. -/
def Enabled (x : World w) : Action → Prop
  | .failedCompletion context _ =>
      context ∈ x.live ∧ (context.mIoType = .ioRecv ∨ context.mIoType = .ioSend)
  | .completion context _ => context ∈ x.live
  | _ => True

instance (x : World w) (a : Action) : Decidable (x.Enabled a) := by
  cases a <;> unfold Enabled <;> infer_instance

def Step (x : World w) (a : Action × Option Bool) (y : World w) : Prop :=
  x.Enabled a.1 ∧ x.exec a.1 = .ok (a.2, y)

def start (s : Session w) : World w where
  session := s
  constructed := []
  live := []
  issued := []
  onDisconnect := []
  onRelease := 0

def perform (x : World w) : List Action → Option (World w)
  | [] => some x
  | a :: later =>
      if x.Enabled a then
        match x.exec a with
        | .error _ => none
        | .ok (_, y) => y.perform later
      else none

theorem performExecute (x : World w) (acts : List Action) :
    x.perform acts = (execute Enabled exec x acts).map Prod.snd := by
  induction acts generalizing x with
  | nil => rfl
  | cons a later ih =>
    unfold perform execute
    split <;> try rfl
    cases ran : x.exec a with
    | error e => rfl
    | ok out => simp [ih, Function.comp_def]

theorem performRun {acts : List Action} (h : x.perform acts = some y) :
    ∃ moves, Run Step x moves y ∧ (actions moves).map Prod.fst = acts := by
  rw [performExecute] at h
  obtain ⟨⟨moves, u⟩, ran, rfl⟩ := Option.map_eq_some_iff.mp h
  exact ⟨moves, executeRun ran⟩

theorem performReachable {acts : List Action} (h : x.perform acts = some y) : Reachable Step x y := by
  obtain ⟨moves, run, _⟩ := performRun h
  exact ⟨moves, run⟩

def idleSession : Session 64 :=
  ⟨3, .create (fun _ => 0) 4096 8#64, .create (fun _ => 0) 8192 8#64, 0, 1, 1⟩

theorem returningOk {result : Except Crash (World w)} {out} (h : returning result = .ok (out, y)) :
    result = .ok y ∧ out = none := by
  obtain ⟨mid, ran, same⟩ := mapOk h
  cases same
  exact ⟨ran, rfl⟩

theorem returningBoolOk {result : Except Crash (Bool × World w)} {out}
    (h : returningBool result = .ok (out, y)) : ∃ b, result = .ok (b, y) ∧ out = some b := by
  obtain ⟨⟨b, mid⟩, ran, same⟩ := mapOk h
  cases same
  exact ⟨b, ran, rfl⟩

def opened (x : World w) (context : OverlappedIOContext) : World w :=
  {x.setRefCount (signed 32 (x.session.mRefCount + 1)) with
    constructed := context :: x.constructed
    live := context :: x.live}

def closed (x : World w) (context : OverlappedIOContext) : World w :=
  {x.setRefCount (signed 32 (x.session.mRefCount - 1)) with
    live := x.live.erase context
    onRelease := if signed 32 (x.session.mRefCount - 1) = 0 then x.onRelease + 1 else x.onRelease}

def Countable (x : World w) : Prop := 0 < signed 32 (x.session.mRefCount + 1)

theorem constructOk {c : OverlappedIOContext} (h : x.construct c = .ok y) :
    y = x.opened c ∧ x.Countable := by
  obtain ⟨mid, counted, last⟩ := bindOk h
  unfold addRef at counted
  dsimp only at counted
  split at counted <;> try contradiction
  rename_i positive
  cases counted
  cases last
  exact ⟨rfl, positive⟩

theorem releaseRefOk (h : x.releaseRef = .ok y) :
    y = {x.setRefCount (signed 32 (x.session.mRefCount - 1)) with
      onRelease :=
        if signed 32 (x.session.mRefCount - 1) = 0 then x.onRelease + 1 else x.onRelease} ∧
    0 ≤ signed 32 (x.session.mRefCount - 1) := by
  unfold releaseRef at h
  dsimp only at h
  split at h <;> try contradiction
  rename_i nonneg
  refine ⟨?_, nonneg⟩
  split at h
  all_goals
    rename_i zero
    cases h
    simp [setRefCount, zero]

theorem releaseRefAsserts (nonneg : 0 ≤ signed 32 (x.session.mRefCount - 1)) :
    x.releaseRef ≠ .error .releaseRefNegative := by
  intro h
  unfold releaseRef at h
  dsimp only at h
  rw [if_pos nonneg] at h
  split at h <;> cases h

theorem deleteOk {c : OverlappedIOContext} (h : x.deleteIoContext (some c) = .ok y) :
    y = x.closed c ∧ 0 ≤ signed 32 (x.session.mRefCount - 1) := by
  obtain ⟨mid, counted, last⟩ := bindOk h
  obtain ⟨rfl, nonneg⟩ := releaseRefOk counted
  refine ⟨?_, nonneg⟩
  split at last <;> try contradiction
  all_goals
    cases last
    rfl

theorem disconnectRequestOk {dr lastError} (h : x.disconnectRequest dr lastError = .ok y) :
    (x.session.mConnected = 0 ∧ y = x) ∨
    (x.session.mConnected ≠ 0 ∧ x.Countable ∧ ∃ c, c = x.fresh .ioDisconnect ⟨0, none⟩ dr ∧
      ((lastError = wsaIoPending ∧ y = (x.setConnected 0).opened c) ∨
        (lastError ≠ wsaIoPending ∧ y = ((x.setConnected 0).opened c).closed c))) := by
  unfold disconnectRequest at h
  split at h
  · rename_i off
    cases h
    exact .inl ⟨off, rfl⟩
  · rename_i on
    obtain ⟨mid, made, last⟩ := bindOk h
    obtain ⟨rfl, countable⟩ := constructOk made
    refine .inr ⟨on, countable, _, rfl, ?_⟩
    rw [if_pos (show socketFalse = lpfnDisconnectEx _ _ _ 0 from rfl)] at last
    split at last
    · rename_i failed
      exact .inr ⟨failed, (deleteOk last).1⟩
    · rename_i kept
      cases last
      exact .inl ⟨Decidable.not_not.mp kept, rfl⟩

theorem wsaRecvOk {c r b} (h : x.wsaRecv c r = .ok (b, y)) :
    (r.Started ∧ b = true ∧ y = x.issue c) ∨ (¬ r.Started ∧ b = false ∧ y = x.closed c) := by
  unfold wsaRecv at h
  split at h
  · rename_i started
    cases h
    exact .inl ⟨started, rfl, rfl⟩
  · rename_i failed
    obtain ⟨mid, gone, last⟩ := bindOk h
    cases last
    exact .inr ⟨failed, rfl, (deleteOk gone).1⟩

theorem preRecvOk {r b} (h : x.preRecv r = .ok (b, y)) :
    (x.session.mConnected = 0 ∧ b = false ∧ y = x) ∨
    (x.session.mConnected ≠ 0 ∧ x.Countable ∧ ∃ c, c = x.fresh .ioRecvZero ⟨0, none⟩ .drNone ∧
      ((r.Started ∧ b = true ∧ y = (x.opened c).issue c) ∨
        (¬ r.Started ∧ b = false ∧ y = (x.opened c).closed c))) := by
  unfold preRecv at h
  split at h
  · rename_i off
    cases h
    exact .inl ⟨off, rfl, rfl⟩
  · rename_i on
    obtain ⟨mid, made, last⟩ := bindOk h
    obtain ⟨rfl, countable⟩ := constructOk made
    exact .inr ⟨on, countable, _, rfl, wsaRecvOk last⟩

theorem postRecvOk {r b} (h : x.postRecv r = .ok (b, y)) :
    (x.session.mConnected = 0 ∧ b = false ∧ y = x) ∨
    (x.session.mConnected ≠ 0 ∧
      ∃ z, z = x.setRecvBuffer x.session.mRecvBuffer.getFreeSpaceSize.2 ∧
        ((x.session.mRecvBuffer.getFreeSpaceSize.1 = 0 ∧ b = false ∧ y = z) ∨
          (x.session.mRecvBuffer.getFreeSpaceSize.1 ≠ 0 ∧ z.Countable ∧
            ∃ c, c = x.fresh .ioRecv ⟨0, none⟩ .drNone ∧
              ((r.Started ∧ b = true ∧ y = (z.opened c).issue c) ∨
                (¬ r.Started ∧ b = false ∧ y = (z.opened c).closed c))))) := by
  unfold postRecv at h
  split at h
  · rename_i off
    cases h
    exact .inl ⟨off, rfl, rfl⟩
  · rename_i on
    refine .inr ⟨on, _, rfl, ?_⟩
    dsimp only at h
    split at h
    · rename_i full
      cases h
      exact .inl ⟨full.symm, rfl, rfl⟩
    · rename_i room
      obtain ⟨mid, made, last⟩ := bindOk h
      obtain ⟨rfl, countable⟩ := constructOk made
      exact .inr ⟨fun full => room full.symm, countable, _, rfl, wsaRecvOk last⟩

theorem postSendOk {data b} (h : x.postSend data = (b, y)) :
    (x.session.mConnected = 0 ∧ b = false ∧ y = x) ∨
    (x.session.mConnected ≠ 0 ∧
      (((x.session.mSendBuffer.getFreeSpaceSize).1 < data.length ∧ b = false ∧
          y = x.setSendBuffer (x.session.mSendBuffer.getFreeSpaceSize).2) ∨
        (data.length ≤ (x.session.mSendBuffer.getFreeSpaceSize).1 ∧ b = true ∧
          y = x.setSendBuffer (((x.session.mSendBuffer.getFreeSpaceSize).2.write
            (x.session.mSendBuffer.getFreeSpaceSize).2.getBuffer data).commit data.length)))) := by
  unfold postSend at h
  split at h
  · rename_i off
    cases h
    exact .inl ⟨off, rfl, rfl⟩
  · rename_i on
    refine .inr ⟨on, ?_⟩
    dsimp only at h
    split at h
    · rename_i short
      cases h
      exact .inl ⟨short, rfl, rfl⟩
    · rename_i room
      cases h
      exact .inr ⟨Nat.le_of_not_lt room, rfl, rfl⟩

/- The send context of FlushSend covers the contiguous bytes of the moment, their number
cut to 32 bits. -/
def sendContext (x : World w) : OverlappedIOContext :=
  x.fresh .ioSend
    ⟨x.session.mSendBuffer.getContiguiousBytes % 2 ^ 32, x.session.mSendBuffer.getBufferStart⟩ .drNone

theorem flushSendOk {r lastError b} (h : x.flushSend r lastError = .ok (b, y)) :
    (y = x ∧
      ((x.session.mConnected = 0 ∧ b = true) ∨
        (x.session.mConnected ≠ 0 ∧ x.session.mSendBuffer.getContiguiousBytes = 0 ∧
          b = decide (x.session.mSendPendingCount = 0)) ∨
        (x.session.mConnected ≠ 0 ∧ x.session.mSendBuffer.getContiguiousBytes ≠ 0 ∧
          0 < x.session.mSendPendingCount ∧ b = false))) ∨
    (x.session.mConnected ≠ 0 ∧ x.session.mSendBuffer.getContiguiousBytes ≠ 0 ∧
      x.session.mSendPendingCount ≤ 0 ∧ x.Countable ∧
      ((r.Started ∧ b = decide (x.session.mSendPendingCount + 1 = 1) ∧
          y = ((x.opened x.sendContext).issue x.sendContext).setSendPending
            (x.session.mSendPendingCount + 1)) ∨
        (¬ r.Started ∧ b = true ∧ ((x.opened x.sendContext).closed x.sendContext).disconnectRequest
          .drSendFlushError lastError = .ok y))) := by
  unfold flushSend at h
  split at h
  · rename_i off
    obtain ⟨mid, same, last⟩ := bindOk h
    rcases disconnectRequestOk same with ⟨_, rfl⟩ | ⟨on, _⟩
    · cases last
      exact .inl ⟨rfl, .inl ⟨off, rfl⟩⟩
    · contradiction
  · rename_i on
    split at h
    · rename_i none
      cases h
      exact .inl ⟨rfl, .inr (.inl ⟨on, none.symm, by simp only [eq_comm]⟩)⟩
    · rename_i some
      split at h
      · rename_i pending
        cases h
        exact .inl ⟨rfl, .inr (.inr ⟨on, fun zero => some zero.symm, pending, rfl⟩)⟩
      · rename_i pending
        obtain ⟨mid, made, last⟩ := bindOk h
        obtain ⟨rfl, countable⟩ := constructOk made
        refine .inr ⟨on, fun zero => some zero.symm, by omega, countable, ?_⟩
        split at last
        · rename_i started
          cases last
          exact .inl ⟨started, rfl, rfl⟩
        · rename_i failed
          obtain ⟨mid, gone, last⟩ := bindOk last
          obtain ⟨rfl, _⟩ := deleteOk gone
          obtain ⟨mid, disconnected, last⟩ := bindOk last
          cases last
          exact .inr ⟨failed, rfl, disconnected⟩

theorem flushSendFailed {r lastError b} (on : x.session.mConnected ≠ 0)
    (some : x.session.mSendBuffer.getContiguiousBytes ≠ 0) (idle : x.session.mSendPendingCount ≤ 0)
    (failed : ¬ r.Started) (h : x.flushSend r lastError = .ok (b, y)) :
    ((x.opened x.sendContext).closed x.sendContext).disconnectRequest .drSendFlushError lastError =
      .ok y := by
  rcases flushSendOk h with ⟨_, ⟨off, _⟩ | ⟨_, none, _⟩ | ⟨_, _, pending, _⟩⟩ |
    ⟨_, _, _, _, ⟨started, _⟩ | ⟨_, _, disconnected⟩⟩
  · contradiction
  · contradiction
  · omega
  · contradiction
  · exact disconnected

theorem failedCompletionOk {c lastError} (h : x.failedCompletion c lastError = .ok y) :
    ∃ z, x.disconnectRequest .drCompletionError lastError = .ok z ∧ y = z.closed c := by
  obtain ⟨mid, disconnected, last⟩ := bindOk h
  exact ⟨mid, disconnected, (deleteOk last).1⟩

def baseReleased (x : World w) (dr : DisconnectReason) : World w :=
  {x.setRefCount (signed 32 (x.session.mRefCount - 1)) with
    onDisconnect := dr :: x.onDisconnect
    onRelease := if signed 32 (x.session.mRefCount - 1) = 0 then x.onRelease + 1 else x.onRelease}

theorem disconnectCompletionOk {dr} (h : x.disconnectCompletion dr = .ok y) :
    y = x.baseReleased dr ∧ 0 ≤ signed 32 (x.session.mRefCount - 1) :=
  releaseRefOk h

theorem completionOk {c n} (h : x.completion c n = .ok y) :
    (c.mIoType = .ioSend ∧ y = (x.sendCompletion n).closed c) ∨
    (c.mIoType = .ioRecv ∧ y = (x.recvCompletion n).closed c) ∨
    (c.mIoType = .ioDisconnect ∧ y = (x.baseReleased c.mDisconnectReason).closed c) ∨
    (c.mIoType ≠ .ioSend ∧ c.mIoType ≠ .ioRecv ∧ c.mIoType ≠ .ioDisconnect ∧ y = x.closed c) := by
  obtain ⟨mid, handled, last⟩ := bindOk h
  obtain ⟨rfl, _⟩ := deleteOk last
  cases kind : c.mIoType <;> simp only [handler, kind] at handled
  case ioDisconnect =>
    obtain ⟨rfl, _⟩ := disconnectCompletionOk handled
    exact .inr (.inr (.inl ⟨rfl, rfl⟩))
  all_goals cases handled; simp

structure Ids (x : World w) : Prop where
  nodup : x.live.Nodup
  known : ∀ c ∈ x.live, c ∈ x.constructed
  below : ∀ c ∈ x.constructed, c.address < x.constructed.length

theorem startIds (s : Session w) : (start s).Ids :=
  ⟨List.nodup_nil, fun _ h => absurd h List.not_mem_nil, fun _ h => absurd h List.not_mem_nil⟩

theorem Ids.notLive (ids : x.Ids) {c : OverlappedIOContext} (new : x.constructed.length ≤ c.address) :
    c ∉ x.live := by
  intro mem
  have := ids.below c (ids.known c mem)
  omega

theorem Ids.opened (ids : x.Ids) {c : OverlappedIOContext} (new : c.address = x.constructed.length) :
    (x.opened c).Ids where
  nodup := List.nodup_cons.mpr ⟨ids.notLive (by omega), ids.nodup⟩
  known := fun d mem => by
    rcases List.mem_cons.mp mem with rfl | old
    · exact List.mem_cons_self
    · exact List.mem_cons_of_mem _ (ids.known d old)
  below := fun d mem => by
    have length : (x.opened c).constructed.length = x.constructed.length + 1 := rfl
    rw [length]
    rcases List.mem_cons.mp mem with rfl | old
    · omega
    · have := ids.below d old
      omega

theorem Ids.closed (ids : x.Ids) (c : OverlappedIOContext) : (x.closed c).Ids where
  nodup := ids.nodup.erase c
  known := fun d mem => ids.known d (List.mem_of_mem_erase mem)
  below := ids.below

/- What can happen to the contexts and the count. A step is a sequence of these. -/
inductive Micro : World w → World w → Prop where
  | buffers (x : World w) (recv send : CircularBuffer w) (pending : Int) :
      Micro x (((x.setRecvBuffer recv).setSendBuffer send).setSendPending pending)
  | posted (x : World w) (c : OverlappedIOContext) (on : x.session.mConnected ≠ 0)
      (countable : x.Countable) (new : c.address = x.constructed.length)
      (kind : c.mIoType ≠ .ioDisconnect) : Micro x ((x.opened c).issue c)
  | refused (x : World w) (c : OverlappedIOContext) (on : x.session.mConnected ≠ 0)
      (countable : x.Countable) (new : c.address = x.constructed.length)
      (kind : c.mIoType ≠ .ioDisconnect) : Micro x ((x.opened c).closed c)
  | disconnecting (x : World w) (c : OverlappedIOContext) (on : x.session.mConnected ≠ 0)
      (countable : x.Countable) (new : c.address = x.constructed.length)
      (kind : c.mIoType = .ioDisconnect) : Micro x ((x.setConnected 0).opened c)
  | undone (x : World w) (c : OverlappedIOContext) (on : x.session.mConnected ≠ 0)
      (countable : x.Countable) (new : c.address = x.constructed.length)
      (kind : c.mIoType = .ioDisconnect) : Micro x (((x.setConnected 0).opened c).closed c)
  | finished (x : World w) (c : OverlappedIOContext) (mem : c ∈ x.live)
      (kind : c.mIoType ≠ .ioDisconnect) : Micro x (x.closed c)
  | disconnected (x : World w) (c : OverlappedIOContext) (mem : c ∈ x.live)
      (kind : c.mIoType = .ioDisconnect) : Micro x ((x.baseReleased c.mDisconnectReason).closed c)

theorem recvBufferMicro (x : World w) (b : CircularBuffer w) : Micro x (x.setRecvBuffer b) :=
  .buffers x b x.session.mSendBuffer x.session.mSendPendingCount

theorem sendBufferMicro (x : World w) (b : CircularBuffer w) : Micro x (x.setSendBuffer b) :=
  .buffers x x.session.mRecvBuffer b x.session.mSendPendingCount

theorem sendPendingMicro (x : World w) (n : Int) : Micro x (x.setSendPending n) :=
  .buffers x x.session.mRecvBuffer x.session.mSendBuffer n

abbrev Micros : World w → World w → Prop := Relation.ReflTransGen Micro

theorem Micros.invariant {I : World w → Prop} (keeps : ∀ x y, I x → Micro x y → I y)
    (h : Micros x y) (start : I x) : I y := by
  induction h with
  | refl => exact start
  | tail _ last ih => exact keeps _ _ ih last

theorem disconnectRequestMicros {dr lastError} (h : x.disconnectRequest dr lastError = .ok y) :
    Micros x y ∧ ∀ c ∈ x.live, c ∈ y.live := by
  rcases disconnectRequestOk h with ⟨_, rfl⟩ | ⟨on, countable, c, rfl, ⟨_, rfl⟩ | ⟨_, rfl⟩⟩
  · exact ⟨.refl, fun _ mem => mem⟩
  · exact ⟨.single (.disconnecting x _ on countable rfl rfl), fun _ mem => List.mem_cons_of_mem _ mem⟩
  · refine ⟨.single (.undone x _ on countable rfl rfl), fun c mem => ?_⟩
    simpa [closed, opened, setConnected, setRefCount] using mem

theorem stepMicros {a : Action × Option Bool} (h : Step x a y) : Micros x y := by
  obtain ⟨act, out⟩ := a
  obtain ⟨enabled, ran⟩ := h
  cases act with
  | preRecv r =>
    obtain ⟨b, ran, _⟩ := returningBoolOk ran
    rcases preRecvOk ran with ⟨_, _, rfl⟩ | ⟨on, countable, c, rfl, ⟨_, _, rfl⟩ | ⟨_, _, rfl⟩⟩
    · exact .refl
    · exact .single (.posted x _ on countable rfl (by simp [fresh]))
    · exact .single (.refused x _ on countable rfl (by simp [fresh]))
  | postRecv r =>
    obtain ⟨b, ran, _⟩ := returningBoolOk ran
    rcases postRecvOk ran with ⟨_, _, rfl⟩ |
      ⟨on, z, rfl, ⟨_, _, rfl⟩ | ⟨_, countable, c, rfl, ⟨_, _, rfl⟩ | ⟨_, _, rfl⟩⟩⟩
    · exact .refl
    · exact .single (recvBufferMicro x _)
    · exact .tail (.single (recvBufferMicro x _)) (.posted _ _ on countable rfl (by simp [fresh]))
    · exact .tail (.single (recvBufferMicro x _)) (.refused _ _ on countable rfl (by simp [fresh]))
  | postSend data =>
    obtain ⟨b, ran, _⟩ := returningBoolOk ran
    rcases postSendOk (Except.ok.inj ran) with ⟨_, _, rfl⟩ | ⟨_, ⟨_, _, rfl⟩ | ⟨_, _, rfl⟩⟩
    · exact .refl
    · exact .single (sendBufferMicro x _)
    · exact .single (sendBufferMicro x _)
  | flushSend r lastError =>
    obtain ⟨b, ran, _⟩ := returningBoolOk ran
    rcases flushSendOk ran with ⟨rfl, _⟩ | ⟨on, _, _, countable, ⟨_, _, rfl⟩ | ⟨_, _, failed⟩⟩
    · exact .refl
    · exact .tail (.single (.posted x _ on countable rfl (by simp [sendContext, fresh]))) (sendPendingMicro _ _)
    · exact .trans (.single (.refused x _ on countable rfl (by simp [sendContext, fresh])))
        (disconnectRequestMicros failed).1
  | disconnectRequest dr lastError => exact (disconnectRequestMicros (returningOk ran).1).1
  | failedCompletion c lastError =>
    obtain ⟨z, disconnected, rfl⟩ := failedCompletionOk (returningOk ran).1
    obtain ⟨micros, kept⟩ := disconnectRequestMicros disconnected
    have kind : c.mIoType ≠ .ioDisconnect := by rcases enabled.2 with h | h <;> simp [h]
    exact .tail micros (.finished z c (kept c enabled.1) kind)
  | completion c n =>
    rcases completionOk (returningOk ran).1 with ⟨kind, rfl⟩ | ⟨kind, rfl⟩ | ⟨kind, rfl⟩ | ⟨_, _, kind, rfl⟩
    · exact .tail (.tail (.single (sendBufferMicro x _)) (sendPendingMicro _ _))
        (.finished _ c enabled (by simp [kind]))
    · exact .tail (.single (recvBufferMicro x _)) (.finished _ c enabled (by simp [kind]))
    · exact .single (.disconnected x c enabled kind)
    · exact .single (.finished x c enabled kind)

theorem microIds (x y : World w) (ids : x.Ids) (h : Micro x y) : y.Ids := by
  have off : (x.setConnected 0).Ids := ⟨ids.nodup, ids.known, ids.below⟩
  cases h with
  | buffers => exact ⟨ids.nodup, ids.known, ids.below⟩
  | posted c _ _ new =>
    have opened := ids.opened new
    exact ⟨opened.nodup, opened.known, opened.below⟩
  | refused c _ _ new => exact (ids.opened new).closed c
  | disconnecting c _ _ new => exact off.opened new
  | undone c _ _ new => exact (off.opened new).closed c
  | finished c => exact ids.closed c
  | disconnected c =>
    have released : (x.baseReleased c.mDisconnectReason).Ids := ⟨ids.nodup, ids.known, ids.below⟩
    exact released.closed c

theorem stepIds (x : World w) (a : Action × Option Bool) (y : World w) (ids : x.Ids)
    (h : Step x a y) : y.Ids := (stepMicros h).invariant microIds ids

theorem Micros.constructed (h : Micros x y) : ∀ c ∈ x.constructed, c ∈ y.constructed := by
  intro c known
  refine h.invariant (I := fun z => c ∈ z.constructed) (fun y z mem micro => ?_) known
  cases micro with
  | posted | refused | disconnecting | undone => exact List.mem_cons_of_mem _ mem
  | buffers | finished | disconnected => exact mem

end World
end IocpNetwork.MssqlUsage
