import IocpNetwork.ObjectPool

/-! operator new and operator delete of any number of threads, one access at a time. The
pool of the servers has one mutex for the class; in the pool of 211110_ObjectPool_test.cpp
each operator has a static mutex of its own, and the operators are otherwise the same. -/
namespace IocpNetwork.ObjectPool
open ByteMemory (store readWord writeWord)
open MachineWords (signed)
open LinkChain (Segment)

inductive Version where
  | winIocp
  | study
  deriving DecidableEq, Repr

inductive Operator where
  | operatorNew
  | operatorDelete
  deriving DecidableEq, Repr

inductive Mutex where
  | mMutex
  | mutexOfNew
  | mutexOfDelete
  deriving DecidableEq, Repr

def Version.mutex : Version → Operator → Mutex
  | .winIocp, _ => .mMutex
  | .study, .operatorNew => .mutexOfNew
  | .study, .operatorDelete => .mutexOfDelete

/- The next access of a thread. operator new: the mutex, the test of mFreeList, the write
of a new chunk to it, the two reads for the loop, a link of the loop (with the number of
rounds left; after the last, mTotalAllocCount), the read of mFreeList, that of the link,
the write of mFreeList, mCurrentUseCount, the release. operator delete: the mutex, the
assertion, mCurrentUseCount, the read of mFreeList, the write of the link, the write of
mFreeList, the release. -/
inductive Pc where
  | idle
  | lockingNew
  | testing
  | allocating
  | readingNext
  | readingCurr (pNext : Nat)
  | linking (rounds pNext ppCurr : Nat)
  | readingHead
  | readingLink (pAvailable : Nat)
  | writingHead (pAvailable next : Nat)
  | counting (pAvailable : Nat)
  | unlockingNew (pAvailable : Nat)
  | lockingDelete (obj : Nat)
  | asserting (obj : Nat)
  | uncounting (obj : Nat)
  | readingFree (obj : Nat)
  | writingLink (obj head : Nat)
  | writingFree (obj head : Nat)
  | unlockingDelete
  deriving DecidableEq, Repr

def Pc.inside : Pc → Option Operator
  | .testing | .allocating | .readingNext | .readingCurr _ | .linking _ _ _ | .readingHead
  | .readingLink _ | .writingHead _ _ | .counting _ | .unlockingNew _ => some .operatorNew
  | .asserting _ | .uncounting _ | .readingFree _ | .writingLink _ _ | .writingFree _ _
  | .unlockingDelete => some .operatorDelete
  | .idle | .lockingNew | .lockingDelete _ => none

/- What the threads share. A block is owned, and live, from the write of mFreeList that
takes it to the one that puts it back; `freed` lists the blocks that were put back and not
taken again, `chunks` the memory that was taken. -/
structure Shared (p : PoolParams) (T : Type*) where
  memory : Nat → UInt8
  mFreeList : Nat
  mTotalAllocCount : Int
  mCurrentUseCount : Int
  chunks : List Nat
  owned : List (T × Nat)
  freed : List Nat

structure Threads (p : PoolParams) (T : Type*) where
  shared : Shared p T
  holder : Mutex → Option T
  pc : T → Pc

variable {p : PoolParams} {T : Type*}

def Shared.live (x : Shared p T) : List Nat := x.owned.map Prod.snd

def Shared.link (x : Shared p T) (q : Nat) : Nat := readWord x.memory p.ptrSize q

namespace Threads

def initial (memory : Nat → UInt8) : Threads p T where
  shared := ⟨memory, 0, 0, 0, [], [], []⟩
  holder := fun _ => none
  pc := fun _ => .idle

section Steps
variable [DecidableEq T]

def goTo (s : Threads p T) (t : T) (pc : Pc) : Threads p T := {s with pc := Function.update s.pc t pc}

def lock (s : Threads p T) (t : T) (mutex : Mutex) : Threads p T :=
  {s with holder := Function.update s.holder mutex (some t)}

def unlock (s : Threads p T) (mutex : Mutex) : Threads p T :=
  {s with holder := Function.update s.holder mutex none}

/- A failing assertion has no successor. A thread frees, uses and gives away only blocks
that it owns, between its calls. -/
inductive Step (version : Version) : Threads p T → T → Threads p T → Prop where
  | callNew (s : Threads p T) (t : T) (here : s.pc t = .idle) :
      Step version s t (s.goTo t .lockingNew)
  | lockNew (s : Threads p T) (t : T) (here : s.pc t = .lockingNew)
      (free : s.holder (version.mutex .operatorNew) = none) :
      Step version s t ((s.lock t (version.mutex .operatorNew)).goTo t .testing)
  | test (s : Threads p T) (t : T) (here : s.pc t = .testing) :
      Step version s t (s.goTo t (if s.shared.mFreeList = 0 then .allocating else .readingHead))
  | allocate (s : Threads p T) (t : T) (fresh : Chunk p) (here : s.pc t = .allocating)
      (disjoint : fresh.Disjoint s.shared.chunks) :
      Step version s t ({s with shared := {s.shared with
        memory := store s.shared.memory fresh.base fresh.contents
        mFreeList := fresh.base
        chunks := fresh.base :: s.shared.chunks}}.goTo t .readingNext)
  | readNext (s : Threads p T) (t : T) (here : s.pc t = .readingNext) :
      Step version s t (s.goTo t (.readingCurr s.shared.mFreeList))
  | readCurr (s : Threads p T) (t : T) (pNext : Nat) (here : s.pc t = .readingCurr pNext) :
      Step version s t (s.goTo t (.linking (p.allocCount - 1) pNext s.shared.mFreeList))
  | link (s : Threads p T) (t : T) (rounds pNext ppCurr : Nat)
      (here : s.pc t = .linking (rounds + 1) pNext ppCurr) :
      Step version s t ({s with shared := {s.shared with
        memory := writeWord s.shared.memory p.ptrSize ppCurr (pNext + p.containerSize)}}.goTo t
          (.linking rounds (pNext + p.containerSize) (pNext + p.containerSize)))
  | total (s : Threads p T) (t : T) (pNext ppCurr : Nat) (here : s.pc t = .linking 0 pNext ppCurr) :
      Step version s t ({s with shared := {s.shared with
        mTotalAllocCount := signed 32 (s.shared.mTotalAllocCount + p.allocCount)}}.goTo t .readingHead)
  | readHead (s : Threads p T) (t : T) (here : s.pc t = .readingHead) :
      Step version s t (s.goTo t (.readingLink s.shared.mFreeList))
  | readLink (s : Threads p T) (t : T) (pAvailable : Nat) (here : s.pc t = .readingLink pAvailable) :
      Step version s t (s.goTo t (.writingHead pAvailable (s.shared.link pAvailable)))
  | writeHead (s : Threads p T) (t : T) (pAvailable next : Nat)
      (here : s.pc t = .writingHead pAvailable next) :
      Step version s t ({s with shared := {s.shared with
        mFreeList := next
        owned := (t, pAvailable) :: s.shared.owned
        freed := s.shared.freed.erase pAvailable}}.goTo t (.counting pAvailable))
  | count (s : Threads p T) (t : T) (pAvailable : Nat) (here : s.pc t = .counting pAvailable) :
      Step version s t ({s with shared := {s.shared with
        mCurrentUseCount := signed 32 (s.shared.mCurrentUseCount + 1)}}.goTo t
          (.unlockingNew pAvailable))
  | unlockNew (s : Threads p T) (t : T) (pAvailable : Nat) (here : s.pc t = .unlockingNew pAvailable) :
      Step version s t ((s.unlock (version.mutex .operatorNew)).goTo t .idle)
  | callDelete (s : Threads p T) (t : T) (obj : Nat) (here : s.pc t = .idle)
      (owns : (t, obj) ∈ s.shared.owned) : Step version s t (s.goTo t (.lockingDelete obj))
  | lockDelete (s : Threads p T) (t : T) (obj : Nat) (here : s.pc t = .lockingDelete obj)
      (free : s.holder (version.mutex .operatorDelete) = none) :
      Step version s t ((s.lock t (version.mutex .operatorDelete)).goTo t (.asserting obj))
  | assert (s : Threads p T) (t : T) (obj : Nat) (here : s.pc t = .asserting obj)
      (used : s.shared.mCurrentUseCount > 0) : Step version s t (s.goTo t (.uncounting obj))
  | uncount (s : Threads p T) (t : T) (obj : Nat) (here : s.pc t = .uncounting obj) :
      Step version s t ({s with shared := {s.shared with
        mCurrentUseCount := signed 32 (s.shared.mCurrentUseCount - 1)}}.goTo t (.readingFree obj))
  | readFree (s : Threads p T) (t : T) (obj : Nat) (here : s.pc t = .readingFree obj) :
      Step version s t (s.goTo t (.writingLink obj s.shared.mFreeList))
  | writeLink (s : Threads p T) (t : T) (obj head : Nat) (here : s.pc t = .writingLink obj head) :
      Step version s t ({s with shared := {s.shared with
        memory := writeWord s.shared.memory p.ptrSize obj head}}.goTo t (.writingFree obj head))
  | writeFree (s : Threads p T) (t : T) (obj head : Nat) (here : s.pc t = .writingFree obj head) :
      Step version s t ({s with shared := {s.shared with
        mFreeList := obj
        owned := s.shared.owned.erase (t, obj)
        freed := obj :: s.shared.freed}}.goTo t .unlockingDelete)
  | unlockDelete (s : Threads p T) (t : T) (here : s.pc t = .unlockingDelete) :
      Step version s t ((s.unlock (version.mutex .operatorDelete)).goTo t .idle)
  | use (s : Threads p T) (t : T) (obj offset : Nat) (data : List UInt8) (here : s.pc t = .idle)
      (owns : (t, obj) ∈ s.shared.owned) (inside : offset + data.length ≤ p.containerSize) :
      Step version s t {s with shared := {s.shared with
        memory := store s.shared.memory (obj + offset) data}}
  | give (s : Threads p T) (t u : T) (obj : Nat) (here : s.pc t = .idle)
      (owns : (t, obj) ∈ s.shared.owned) :
      Step version s t {s with shared := {s.shared with
        owned := (u, obj) :: s.shared.owned.erase (t, obj)}}

def FewLive (version : Version) (s : Threads p T) (t : T) (s' : Threads p T) : Prop :=
  Step version s t s' ∧ s'.shared.owned.length < p.allocCount

end Steps

def Stale (s : Threads p T) (t : T) : Prop :=
  match s.pc t with
  | .allocating => s.shared.mFreeList ≠ 0
  | .writingHead pAvailable _ => s.shared.mFreeList ≠ pAvailable
  | .writingFree _ head => s.shared.mFreeList ≠ head
  | _ => False

end Threads

def lastSlot (p : PoolParams) (base : Nat) : Nat := base + (p.allocCount - 1) * p.containerSize

namespace Shared

/- The free list: from mFreeList to the last slot of the chunk, which no operator gets
behind while fewer than ALLOC_COUNT blocks are live. -/
def FreeList (x : Shared p T) (free : List Nat) : Prop :=
  ∃ c ∈ x.chunks, ∃ front, free = front ++ [lastSlot p c] ∧
    Segment x.link x.mFreeList front (lastSlot p c) ∧ lastSlot p c ∉ front

def Listed (x : Shared p T) (q : Nat) : Prop := ∃ free, x.FreeList free ∧ q ∈ free

structure Safe (x : Shared p T) : Prop where
  oneOwner : ∀ t u b, (t, b) ∈ x.owned → (u, b) ∈ x.owned → t = u
  once : x.owned.Nodup
  liveUnlisted : ∀ b ∈ x.live, ¬ x.Listed b
  freedListed : ∀ b ∈ x.freed, x.Listed b

end Shared
end IocpNetwork.ObjectPool
