import IocpNetwork.CircularBuffer
import IocpNetwork.Winsock
import IocpNetwork.Lib.Fallible

/-! ClientSession.hpp and the completion loop of IocpManager.hpp. A world is one session
with the contexts that were constructed for it. The results of the socket calls are
inputs; CRASH_ASSERT and the read of a field of a null context end the process. -/
namespace IocpNetwork.WinIocp
open MachineWords (signed)
open Fallible (bindOk)

inductive IoType where
  | ioNone | ioSend | ioRecv | ioRecvZero | ioAccept | ioDisconnect
  deriving DecidableEq, Repr

inductive DisconnectReason where
  | drNone | drRecvZero | drActive | drOnConnectError | drCompletionError | drIoRequestError
  deriving DecidableEq, Repr

inductive ThreadType where
  | threadMain
  | threadIoWorker
  deriving DecidableEq, Repr

/- `address` tells contexts apart; only OverlappedDisconnectContext sets its reason. -/
structure OverlappedIOContext where
  address : Nat
  mIoType : IoType
  mWsaBuf : WsaBuf
  mDisconnectReason : DisconnectReason
  deriving DecidableEq, Repr

inductive Crash where
  | addRefNotPositive
  | releaseRefNegative
  | wrongThread
  | alreadyConnected
  | unknownIoType
  | nullContext
  | nullClient
  deriving DecidableEq, Repr

structure ClientSession (w : Nat) where
  mBuffer : CircularBuffer w
  mRefCount : Int
  mConnected : Int

/- `live` lists the contexts that were constructed and not passed to DeleteIoContext,
`issued` those with which WSARecv or WSASend started an operation. `baseReleases` counts
the releases made by DisconnectCompletion, `handedBack` the calls of ReleaseRef to
GSessionManager. -/
structure World (w : Nat) where
  session : ClientSession w
  constructed : List OverlappedIOContext
  live : List OverlappedIOContext
  issued : List OverlappedIOContext
  baseReleases : Nat
  handedBack : Nat

structure AcceptCalls where
  updateAcceptContext : Bool
  tcpNoDelay : Bool
  soRcvBuf : Bool
  getPeerName : Bool
  deriving DecidableEq, Repr

namespace World
variable {w : Nat}

def setRefCount (x : World w) (n : Int) : World w := {x with session := {x.session with mRefCount := n}}
def setConnected (x : World w) (n : Int) : World w := {x with session := {x.session with mConnected := n}}
def setBuffer (x : World w) (b : CircularBuffer w) : World w := {x with session := {x.session with mBuffer := b}}
def issue (x : World w) (context : OverlappedIOContext) : World w :=
  {x with issued := context :: x.issued}

def addRef (x : World w) : Except Crash (World w) :=
  let count := signed 32 (x.session.mRefCount + 1)
  if count > 0 then .ok (x.setRefCount count) else .error .addRefNotPositive

def releaseRef (x : World w) : Except Crash (World w) :=
  let ref := signed 32 (x.session.mRefCount - 1)
  if ref ≥ 0 then
    if ref = 0 then .ok {x.setRefCount ref with handedBack := x.handedBack + 1}
    else .ok (x.setRefCount ref)
  else .error .releaseRefNegative

def fresh (x : World w) (ioType : IoType) (wsaBuf : WsaBuf) (reason : DisconnectReason) :
    OverlappedIOContext := ⟨x.constructed.length, ioType, wsaBuf, reason⟩

def construct (x : World w) (context : OverlappedIOContext) : Except Crash (World w) := do
  let x ← x.addRef
  .ok {x with constructed := context :: x.constructed, live := context :: x.live}

/- The body of DeleteIoContext is empty: only the record of the call changes. -/
def deleteIoContext (x : World w) (context : OverlappedIOContext) : World w :=
  {x with live := x.live.erase context}

def disconnectRequest (x : World w) (dr : DisconnectReason) : Except Crash (World w) :=
  if x.session.mConnected = 0 then .ok x
  else
    let x := x.setConnected 0
    x.construct (x.fresh .ioDisconnect ⟨0, none⟩ dr)

/- PreRecv constructs a receive context and starts nothing. -/
def preRecv (x : World w) : Except Crash (Bool × World w) :=
  if x.session.mConnected = 0 then .ok (false, x)
  else do
    let x ← x.construct (x.fresh .ioRecv ⟨0, none⟩ .drNone)
    .ok (true, x)

def postAccept (x : World w) (lThreadType : ThreadType) : Except Crash (Bool × World w) :=
  if lThreadType ≠ .threadMain then .error .wrongThread
  else do
    let x ← x.construct (x.fresh .ioAccept ⟨0, none⟩ .drNone)
    .ok (true, x)

def acceptCompletion (x : World w) (lThreadType : ThreadType) (calls : AcceptCalls) :
    Except Crash (World w) :=
  if lThreadType ≠ .threadIoWorker then .error .wrongThread
  else if x.session.mConnected = 1 then .error .alreadyConnected
  else
    let x := x.setConnected 1
    if !(calls.updateAcceptContext && calls.tcpNoDelay && calls.soRcvBuf && calls.getPeerName) then
      x.disconnectRequest .drOnConnectError
    else do
      let (_, x) ← x.preRecv
      .ok x

def disconnectCompletion (x : World w) : Except Crash (World w) := do
  let x ← x.releaseRef
  .ok {x with baseReleases := x.baseReleases + 1}

/- The end that PostRecv and PostSend share. -/
def started (x : World w) (context : OverlappedIOContext) (r : WsaResult) : Bool × World w :=
  if r.Started then (true, x.issue context) else (false, x.deleteIoContext context)

def postRecv (x : World w) (r : WsaResult) : Except Crash (Bool × World w) :=
  if x.session.mConnected = 0 then .ok (false, x)
  else do
    let (space, buffer) := x.session.mBuffer.getFreeSpaceSize
    let context := x.fresh .ioRecv ⟨space % 2 ^ 32, some buffer.getBuffer⟩ .drNone
    let x ← x.construct context
    .ok ((x.setBuffer buffer).started context r)

def recvCompletion (x : World w) (transferred : Nat) : World w :=
  x.setBuffer (x.session.mBuffer.commit transferred)

def postSend (x : World w) (r : WsaResult) : Except Crash (Bool × World w) :=
  if x.session.mConnected = 0 then .ok (false, x)
  else do
    let context := x.fresh .ioSend
      ⟨x.session.mBuffer.getContiguiousBytes % 2 ^ 32, x.session.mBuffer.getBufferStart⟩ .drNone
    let x ← x.construct context
    .ok (x.started context r)

def sendCompletion (x : World w) (transferred : Nat) : World w :=
  x.setBuffer (x.session.mBuffer.remove transferred)

def preReceiveCompletion (x : World w) : Except Crash (Bool × World w) := x.preRecv

def receiveCompletion (x : World w) (transferred : Nat) (r : WsaResult) :
    Except Crash (Bool × World w) := (x.recvCompletion transferred).postSend r

def managerSendCompletion (x : World w) (context : OverlappedIOContext) (transferred : Nat) :
    Except Crash (Bool × World w) :=
  let x := x.sendCompletion transferred
  if context.mWsaBuf.len ≠ transferred then .ok (false, x) else x.preRecv

/- The `switch` of IoWorkerThread, with completionOk. -/
def dispatch (x : World w) (context : OverlappedIOContext) (transferred : Nat)
    (calls : AcceptCalls) (r : WsaResult) : Except Crash (Bool × World w) :=
  match context.mIoType with
  | .ioDisconnect => do
      let x ← x.disconnectCompletion
      .ok (true, x)
  | .ioAccept => do
      let x ← x.acceptCompletion .threadIoWorker calls
      .ok (true, x)
  | .ioRecvZero => x.preReceiveCompletion
  | .ioSend => x.managerSendCompletion context transferred
  | .ioRecv => x.receiveCompletion transferred r
  | .ioNone => .error .unknownIoType

/- The part of an iteration that follows the check of the result. -/
def handle (x : World w) (context : OverlappedIOContext) (transferred : Nat)
    (calls : AcceptCalls) (r : WsaResult) : Except Crash (World w) := do
  let (completionOk, x) ← x.dispatch context transferred calls r
  if completionOk then .ok (x.deleteIoContext context)
  else do
    let x ← x.disconnectRequest .drIoRequestError
    .ok (x.deleteIoContext context)

def ioWorkerThread (x : World w) (ret : Int) (transferred : Nat)
    (context : Option OverlappedIOContext) (calls : AcceptCalls) (r : WsaResult) :
    Except Crash (World w) :=
  if ret = 0 ∨ transferred = 0 then
    match context with
    | none => .error .nullContext
    | some context =>
        if context.mIoType = .ioRecv ∨ context.mIoType = .ioSend then do
          let x ← x.disconnectRequest .drCompletionError
          .ok (x.deleteIoContext context)
        else x.handle context transferred calls r
  else
    match context with
    | none => .error .nullClient
    | some context => x.handle context transferred calls r

variable {x y : World w}

theorem constructOk {c : OverlappedIOContext} (h : x.construct c = .ok y) :
    signed 32 (x.session.mRefCount + 1) > 0 ∧
    y = {x.setRefCount (signed 32 (x.session.mRefCount + 1)) with
      constructed := c :: x.constructed
      live := c :: x.live} := by
  obtain ⟨mid, counted, last⟩ := bindOk h
  unfold addRef at counted
  dsimp only at counted
  split at counted <;> try contradiction
  rename_i positive
  cases counted
  cases last
  exact ⟨positive, rfl⟩

theorem disconnectRequestOk {dr} (h : x.disconnectRequest dr = .ok y) :
    (x.session.mConnected = 0 ∧ y = x) ∨ (x.session.mConnected ≠ 0 ∧
      (x.setConnected 0).construct ((x.setConnected 0).fresh .ioDisconnect ⟨0, none⟩ dr) = .ok y) := by
  unfold disconnectRequest at h
  split at h
  · rename_i off
    cases h
    exact .inl ⟨off, rfl⟩
  · rename_i on
    exact .inr ⟨on, h⟩

theorem preRecvOk {b} (h : x.preRecv = .ok (b, y)) :
    (x.session.mConnected = 0 ∧ b = false ∧ y = x) ∨
    (x.session.mConnected ≠ 0 ∧ b = true ∧
      x.construct (x.fresh .ioRecv ⟨0, none⟩ .drNone) = .ok y) := by
  unfold preRecv at h
  split at h
  · rename_i off
    cases h
    exact .inl ⟨off, rfl, rfl⟩
  · rename_i on
    obtain ⟨mid, made, last⟩ := bindOk h
    cases last
    exact .inr ⟨on, rfl, made⟩

theorem acceptCompletionOk {t calls} (h : x.acceptCompletion t calls = .ok y) :
    (calls ≠ ⟨true, true, true, true⟩ ∧
      (x.setConnected 1).disconnectRequest .drOnConnectError = .ok y) ∨
    (calls = ⟨true, true, true, true⟩ ∧ ∃ b, (x.setConnected 1).preRecv = .ok (b, y)) := by
  unfold acceptCompletion at h
  split at h <;> try contradiction
  split at h <;> try contradiction
  dsimp only at h
  split at h
  · rename_i refused
    refine .inl ⟨fun all => ?_, h⟩
    rw [all] at refused
    contradiction
  · rename_i accepted
    obtain ⟨⟨b, mid⟩, received, last⟩ := bindOk h
    cases last
    refine .inr ⟨?_, b, received⟩
    cases calls
    simp at accepted
    simp [accepted]

theorem disconnectCompletionOk (h : x.disconnectCompletion = .ok y) :
    signed 32 (x.session.mRefCount - 1) ≥ 0 ∧ ∃ n,
    y = {x.setRefCount (signed 32 (x.session.mRefCount - 1)) with
      handedBack := n
      baseReleases := x.baseReleases + 1} := by
  obtain ⟨mid, counted, last⟩ := bindOk h
  unfold releaseRef at counted
  dsimp only at counted
  split at counted <;> try contradiction
  rename_i nonneg
  split at counted
  all_goals
    cases counted
    cases last
    exact ⟨nonneg, _, rfl⟩

end World
end IocpNetwork.WinIocp
