import IocpNetwork.MssqlUsage.Session
import IocpNetwork.Lib.Runs

/-! The calls of a Session by any number of threads, each of which handles the completions
that it takes from the port, one access to mRefCount, mConnected and the port at a time. Calls
are made inside a handler only, by a thread that has the reference of its context. The switch of
DoIocpJob ends in `// ...`: the handler of a disconnect context is taken to be
DisconnectCompletion, that of another may make any calls, and DeleteIoContext follows once.
The buffers decide only whether a post is made, and their part is in SendBufferThreads. -/
namespace IocpNetwork.MssqlUsage
open MachineWords (signed)

/- The next access of a thread, with the context whose completion it handles: the port; a call
of the handler; IsConnected, in PreRecv, PostRecv or FlushSend; AddRef in the constructor of
their context; the call of the socket; ReleaseRef in DeleteIoContext of a context that was
refused. DisconnectRequest: the exchange; AddRef in the constructor; WSAGetLastError.
DisconnectCompletion: OnDisconnect; ReleaseRef. Last, ReleaseRef in DeleteIoContext of the
context that is handled. OnRelease is called where ReleaseRef comes to 0. -/
inductive Pc where
  | waiting
  | handling (c : OverlappedIOContext)
  | checking (c : OverlappedIOContext) (ioType : IoType)
  | constructing (c : OverlappedIOContext) (ioType : IoType)
  | posting (c new : OverlappedIOContext)
  | deleting (c new : OverlappedIOContext)
  | exchanging (c : OverlappedIOContext) (dr : DisconnectReason)
  | disconnecting (c : OverlappedIOContext) (dr : DisconnectReason)
  | requesting (c new : OverlappedIOContext)
  | onDisconnect (c : OverlappedIOContext)
  | releasingBase (c : OverlappedIOContext)
  | finishing (c : OverlappedIOContext)
  | onRelease (next : Pc)
  deriving DecidableEq, Repr

def Pc.contexts : Pc → List OverlappedIOContext
  | .waiting => []
  | .handling c | .checking c _ | .constructing c _ | .exchanging c _ | .disconnecting c _
  | .onDisconnect c | .releasingBase c | .finishing c => [c]
  | .posting c new | .deleting c new | .requesting c new => [new, c]
  | .onRelease next => next.contexts

/- `inFlight` lists the contexts whose operation was started and whose completion was not
taken, `kept` the disconnect contexts that DisconnectRequest left with their reference, `live`
those that were constructed and whose reference was not given back, and `requested` counts the
disconnect contexts that were constructed. -/
structure Handlers (T : Type*) where
  mRefCount : Int
  mConnected : Int
  inFlight : List OverlappedIOContext
  kept : List OverlappedIOContext
  onDisconnect : List DisconnectReason
  onRelease : Nat
  live : List OverlappedIOContext
  baseHeld : Bool
  requested : Nat
  pc : T → Pc

namespace Handlers
variable {T : Type*}

def start (inFlight : List OverlappedIOContext) : Handlers T where
  mRefCount := inFlight.length + 1
  mConnected := 1
  inFlight := inFlight
  kept := []
  onDisconnect := []
  onRelease := 0
  live := inFlight
  baseHeld := true
  requested := 0
  pc := fun _ => .waiting

def addRef (s : Handlers T) (new : OverlappedIOContext) : Handlers T :=
  {s with mRefCount := signed 32 (s.mRefCount + 1), live := new :: s.live}

def releaseRef (s : Handlers T) (c : OverlappedIOContext) : Handlers T :=
  {s with mRefCount := signed 32 (s.mRefCount - 1), live := s.live.erase c}

def releaseBase (s : Handlers T) : Handlers T :=
  {s with mRefCount := signed 32 (s.mRefCount - 1), baseHeld := false}

def afterRelease (s : Handlers T) (next : Pc) : Pc :=
  if signed 32 (s.mRefCount - 1) = 0 then .onRelease next else next

def handler (c : OverlappedIOContext) : Pc :=
  if c.mIoType = .ioDisconnect then .onDisconnect c else .handling c

def notPosted (c : OverlappedIOContext) (ioType : IoType) : Pc :=
  if ioType = .ioSend then .exchanging c .drSendFlushError else .handling c

section Steps
variable [DecidableEq T]

def goTo (s : Handlers T) (t : T) (pc : Pc) : Handlers T := {s with pc := Function.update s.pc t pc}

/- A failing assertion has no successor. A new context is an object apart from the live ones.
The expression with LPFN_DISCONNECTEX starts nothing and is 0, so WSAGetLastError decides
whether the context is deleted or kept. Nothing in this code then brings the completion of a
kept one; `dequeueKept` is there for one that comes in another way. -/
inductive Step : Handlers T → T → Handlers T → Prop where
  | dequeue (s : Handlers T) (t : T) (c : OverlappedIOContext) (here : s.pc t = .waiting)
      (mem : c ∈ s.inFlight) :
      Step s t ({s with inFlight := s.inFlight.erase c}.goTo t (handler c))
  | dequeueKept (s : Handlers T) (t : T) (c : OverlappedIOContext) (here : s.pc t = .waiting)
      (mem : c ∈ s.kept) : Step s t ({s with kept := s.kept.erase c}.goTo t (handler c))
  | call (s : Handlers T) (t : T) (c : OverlappedIOContext) (ioType : IoType)
      (here : s.pc t = .handling c) (posts : ioType = .ioRecvZero ∨ ioType = .ioRecv ∨ ioType = .ioSend) :
      Step s t (s.goTo t (.checking c ioType))
  | isConnected (s : Handlers T) (t : T) (c : OverlappedIOContext) (ioType : IoType)
      (here : s.pc t = .checking c ioType) :
      Step s t (s.goTo t (if s.mConnected = 0 then notPosted c ioType else .constructing c ioType))
  | nothingToPost (s : Handlers T) (t : T) (c : OverlappedIOContext) (ioType : IoType)
      (here : s.pc t = .constructing c ioType) (buffered : ioType ≠ .ioRecvZero) :
      Step s t (s.goTo t (.handling c))
  | construct (s : Handlers T) (t : T) (c new : OverlappedIOContext) (ioType : IoType)
      (here : s.pc t = .constructing c ioType) (kind : new.mIoType = ioType) (apart : new ∉ s.live)
      (positive : signed 32 (s.mRefCount + 1) > 0) : Step s t ((s.addRef new).goTo t (.posting c new))
  | started (s : Handlers T) (t : T) (c new : OverlappedIOContext) (here : s.pc t = .posting c new) :
      Step s t ({s with inFlight := new :: s.inFlight}.goTo t (.handling c))
  | refused (s : Handlers T) (t : T) (c new : OverlappedIOContext) (here : s.pc t = .posting c new) :
      Step s t (s.goTo t (.deleting c new))
  | deleteRefused (s : Handlers T) (t : T) (c new : OverlappedIOContext) (here : s.pc t = .deleting c new)
      (nonneg : signed 32 (s.mRefCount - 1) ≥ 0) :
      Step s t ((s.releaseRef new).goTo t (s.afterRelease (notPosted c new.mIoType)))
  | disconnectRequest (s : Handlers T) (t : T) (c : OverlappedIOContext) (dr : DisconnectReason)
      (here : s.pc t = .handling c) : Step s t (s.goTo t (.exchanging c dr))
  | exchange (s : Handlers T) (t : T) (c : OverlappedIOContext) (dr : DisconnectReason)
      (here : s.pc t = .exchanging c dr) : Step s t ({s with mConnected := 0}.goTo t
        (if s.mConnected = 0 then .handling c else .disconnecting c dr))
  | constructDisconnect (s : Handlers T) (t : T) (c new : OverlappedIOContext) (dr : DisconnectReason)
      (here : s.pc t = .disconnecting c dr) (kind : new.mIoType = .ioDisconnect)
      (reason : new.mDisconnectReason = dr) (apart : new ∉ s.live)
      (positive : signed 32 (s.mRefCount + 1) > 0) :
      Step s t ({s.addRef new with requested := s.requested + 1}.goTo t (.requesting c new))
  | requestKept (s : Handlers T) (t : T) (c new : OverlappedIOContext) (here : s.pc t = .requesting c new) :
      Step s t ({s with kept := new :: s.kept}.goTo t (.handling c))
  | requestFailed (s : Handlers T) (t : T) (c new : OverlappedIOContext) (here : s.pc t = .requesting c new) :
      Step s t (s.goTo t (.deleting c new))
  | onDisconnect (s : Handlers T) (t : T) (c : OverlappedIOContext) (here : s.pc t = .onDisconnect c) :
      Step s t ({s with onDisconnect := c.mDisconnectReason :: s.onDisconnect}.goTo t (.releasingBase c))
  | releaseBase (s : Handlers T) (t : T) (c : OverlappedIOContext) (here : s.pc t = .releasingBase c)
      (nonneg : signed 32 (s.mRefCount - 1) ≥ 0) :
      Step s t (s.releaseBase.goTo t (s.afterRelease (.finishing c)))
  | finish (s : Handlers T) (t : T) (c : OverlappedIOContext) (here : s.pc t = .handling c) :
      Step s t (s.goTo t (.finishing c))
  | deleteIoContext (s : Handlers T) (t : T) (c : OverlappedIOContext) (here : s.pc t = .finishing c)
      (nonneg : signed 32 (s.mRefCount - 1) ≥ 0) :
      Step s t ((s.releaseRef c).goTo t (s.afterRelease .waiting))
  | onRelease (s : Handlers T) (t : T) (next : Pc) (here : s.pc t = .onRelease next) :
      Step s t ({s with onRelease := s.onRelease + 1}.goTo t next)

end Steps

end Handlers
end IocpNetwork.MssqlUsage
