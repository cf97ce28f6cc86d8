import IocpNetwork.CircularBuffer
import IocpNetwork.Winsock

/-! Session.hpp, OverlappedIOContext.hpp and WorkerThread.hpp of win-iocp-mssql-usage.
A world is one session with the contexts that were constructed for it. The results of
the socket calls and of WSAGetLastError are inputs; CRASH_ASSERT ends the process. -/
namespace IocpNetwork.MssqlUsage
open MachineWords (signed)

inductive IoType where
  | ioNone | ioSend | ioRecv | ioRecvZero | ioAccept | ioDisconnect | ioConnect
  deriving DecidableEq, Repr

inductive DisconnectReason where
  | drNone | drActive | drOnConnectError | drCompletionError | drIoRequestError | drSendFlushError
  deriving DecidableEq, Repr

/- `address` tells contexts apart; only OverlappedDisconnectContext sets its reason. -/
structure OverlappedIOContext where
  address : Nat
  mIoType : IoType
  mWsaBuf : WsaBuf
  mDisconnectReason : DisconnectReason
  deriving DecidableEq, Repr

inductive Crash where
  | addRefNotPositive
  | releaseRefNegative
  | unknownIoType
  | nullContext
  | nullRemote
  deriving DecidableEq, Repr

def socketFalse : Nat := 0
def tfReuseSocket : Nat := 2

structure Session (w : Nat) where
  mSocket : Nat
  mRecvBuffer : CircularBuffer w
  mSendBuffer : CircularBuffer w
  mSendPendingCount : Int
  mRefCount : Int
  mConnected : Int

/- `constructed` and `live` list the contexts ever constructed and those not yet deleted,
`issued` those with which a socket operation was started; the calls of the virtual
functions are kept in `onDisconnect` and counted in `onRelease`. -/
structure World (w : Nat) where
  session : Session w
  constructed : List OverlappedIOContext
  live : List OverlappedIOContext
  issued : List OverlappedIOContext
  onDisconnect : List DisconnectReason
  onRelease : Nat

namespace World
variable {w : Nat}

def setRefCount (x : World w) (n : Int) : World w := {x with session := {x.session with mRefCount := n}}
def setConnected (x : World w) (n : Int) : World w := {x with session := {x.session with mConnected := n}}
def setRecvBuffer (x : World w) (b : CircularBuffer w) : World w :=
  {x with session := {x.session with mRecvBuffer := b}}
def setSendBuffer (x : World w) (b : CircularBuffer w) : World w :=
  {x with session := {x.session with mSendBuffer := b}}
def setSendPending (x : World w) (n : Int) : World w :=
  {x with session := {x.session with mSendPendingCount := n}}
def issue (x : World w) (context : OverlappedIOContext) : World w :=
  {x with issued := context :: x.issued}

def addRef (x : World w) : Except Crash (World w) :=
  let count := signed 32 (x.session.mRefCount + 1)
  if count > 0 then .ok (x.setRefCount count) else .error .addRefNotPositive

def releaseRef (x : World w) : Except Crash (World w) :=
  let ret := signed 32 (x.session.mRefCount - 1)
  if ret ≥ 0 then
    if ret = 0 then .ok {x.setRefCount ret with onRelease := x.onRelease + 1}
    else .ok (x.setRefCount ret)
  else .error .releaseRefNegative

def fresh (x : World w) (ioType : IoType) (wsaBuf : WsaBuf) (reason : DisconnectReason) :
    OverlappedIOContext := ⟨x.constructed.length, ioType, wsaBuf, reason⟩

def construct (x : World w) (context : OverlappedIOContext) : Except Crash (World w) := do
  let x ← x.addRef
  .ok {x with constructed := context :: x.constructed, live := context :: x.live}

def deleteIoContext (x : World w) : Option OverlappedIOContext → Except Crash (World w)
  | none => .ok x
  | some context => do
      let x ← x.releaseRef
      match context.mIoType with
      | .ioNone => .error .unknownIoType
      | .ioSend | .ioRecvZero | .ioRecv | .ioDisconnect | .ioAccept | .ioConnect =>
          .ok {x with live := x.live.erase context}

/- `(LPFN_DISCONNECTEX)(mSocket, (LPOVERLAPPED)context, TF_REUSE_SOCKET, 0)` calls nothing:
it is a comma expression, cast to a function pointer. Its value is the last operand,
and no operation is issued to the socket. -/
def lpfnDisconnectEx (_mSocket _context _flags reserved : Nat) : Nat := reserved

def disconnectRequest (x : World w) (dr : DisconnectReason) (lastError : Nat) :
    Except Crash (World w) :=
  if x.session.mConnected = 0 then .ok x
  else do
    let x := x.setConnected 0
    let context := x.fresh .ioDisconnect ⟨0, none⟩ dr
    let x ← x.construct context
    if socketFalse = lpfnDisconnectEx x.session.mSocket context.address tfReuseSocket 0 then
      if lastError ≠ wsaIoPending then x.deleteIoContext (some context)
      else .ok x
    else .ok x

/- The end that PreRecv and PostRecv share. -/
def wsaRecv (x : World w) (context : OverlappedIOContext) (r : WsaResult) :
    Except Crash (Bool × World w) :=
  if r.Started then .ok (true, x.issue context)
  else do
    let x ← x.deleteIoContext (some context)
    .ok (false, x)

def preRecv (x : World w) (r : WsaResult) : Except Crash (Bool × World w) :=
  if x.session.mConnected = 0 then .ok (false, x)
  else do
    let context := x.fresh .ioRecvZero ⟨0, none⟩ .drNone
    let x ← x.construct context
    x.wsaRecv context r

def postRecv (x : World w) (r : WsaResult) : Except Crash (Bool × World w) :=
  if x.session.mConnected = 0 then .ok (false, x)
  else
    let (space, buffer) := x.session.mRecvBuffer.getFreeSpaceSize
    let x := x.setRecvBuffer buffer
    if 0 = space then .ok (false, x)
    else do
      let context := x.fresh .ioRecv ⟨0, none⟩ .drNone
      let x ← x.construct context
      x.wsaRecv context r

def postSend (x : World w) (data : List UInt8) : Bool × World w :=
  if x.session.mConnected = 0 then (false, x)
  else
    let (space, buffer) := x.session.mSendBuffer.getFreeSpaceSize
    if space < data.length then (false, x.setSendBuffer buffer)
    else (true, x.setSendBuffer ((buffer.write buffer.getBuffer data).commit data.length))

/- `lastError` is what WSAGetLastError returns inside the DisconnectRequest of the failure
path; the source calls nothing between the failed WSASend and that read. -/
def flushSend (x : World w) (r : WsaResult) (lastError : Nat) : Except Crash (Bool × World w) :=
  if x.session.mConnected = 0 then do
    let x ← x.disconnectRequest .drSendFlushError lastError
    .ok (true, x)
  else if 0 = x.session.mSendBuffer.getContiguiousBytes then
    .ok (decide (0 = x.session.mSendPendingCount), x)
  else if x.session.mSendPendingCount > 0 then .ok (false, x)
  else do
    let context := x.fresh .ioSend
      ⟨x.session.mSendBuffer.getContiguiousBytes % 2 ^ 32, x.session.mSendBuffer.getBufferStart⟩ .drNone
    let x ← x.construct context
    if r.Started then
      let x := (x.issue context).setSendPending (x.session.mSendPendingCount + 1)
      .ok (decide (x.session.mSendPendingCount = 1), x)
    else do
      let x ← x.deleteIoContext (some context)
      let x ← x.disconnectRequest .drSendFlushError lastError
      .ok (true, x)

def disconnectCompletion (x : World w) (dr : DisconnectReason) : Except Crash (World w) :=
  {x with onDisconnect := dr :: x.onDisconnect}.releaseRef

def sendCompletion (x : World w) (transferred : Nat) : World w :=
  (x.setSendBuffer (x.session.mSendBuffer.remove transferred)).setSendPending
    (x.session.mSendPendingCount - 1)

def recvCompletion (x : World w) (transferred : Nat) : World w :=
  x.setRecvBuffer (x.session.mRecvBuffer.commit transferred)

/- The error branch of DoIocpJob, on the context of a failed receive or send. -/
def failedCompletion (x : World w) (context : OverlappedIOContext) (lastError : Nat) :
    Except Crash (World w) := do
  let x ← x.disconnectRequest .drCompletionError lastError
  x.deleteIoContext (some context)

def handler (x : World w) (context : OverlappedIOContext) (transferred : Nat) :
    Except Crash (World w) :=
  match context.mIoType with
  | .ioSend => .ok (x.sendCompletion transferred)
  | .ioRecv => .ok (x.recvCompletion transferred)
  | .ioDisconnect => x.disconnectCompletion context.mDisconnectReason
  | .ioNone | .ioRecvZero | .ioAccept | .ioConnect => .ok x

def completion (x : World w) (context : OverlappedIOContext) (transferred : Nat) :
    Except Crash (World w) := do
  let x ← x.handler context transferred
  x.deleteIoContext (some context)

end World
end IocpNetwork.MssqlUsage
