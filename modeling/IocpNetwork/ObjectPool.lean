import IocpNetwork.Lib.MachineWords
import IocpNetwork.Lib.ByteMemory
import IocpNetwork.Lib.LinkChain
import IocpNetwork.Lib.Runs

/-! ObjectPool.hpp, one text for both servers. The free list is threaded through raw
memory: the first pointer of a free slot is its link. A call holds the mutex, so each is
one step. (`operator new` declares `pAvaliable` and reads `pAvailable`; both are taken
to be the one variable.) -/
namespace IocpNetwork
open ByteMemory (store readWord writeWord decode)
open MachineWords (signed)

structure PoolParams where
  ptrSize : Nat
  containerSize : Nat
  allocCount : Nat
  ptrNonempty : 0 < ptrSize
  holdsPointer : ptrSize ≤ containerSize
  allocCountPositive : 1 ≤ allocCount
  allocCountInt : allocCount < 2 ^ 31

/- What `new uint8_t[sizeof(Container) * ALLOC_COUNT]` returns: a non-null block inside
the address space, with any contents. -/
structure Chunk (p : PoolParams) where
  base : Nat
  contents : List UInt8
  full : contents.length = p.containerSize * p.allocCount
  nonnull : base ≠ 0
  inside : base + p.containerSize * p.allocCount ≤ 256 ^ p.ptrSize

def Chunk.lastLink {p : PoolParams} (fresh : Chunk p) : Nat :=
  decode ((fresh.contents.drop (p.containerSize * (p.allocCount - 1))).take p.ptrSize)

def Chunk.Disjoint {p : PoolParams} (fresh : Chunk p) (chunks : List Nat) : Prop :=
  ∀ c ∈ chunks, fresh.base + p.containerSize * p.allocCount ≤ c ∨
    c + p.containerSize * p.allocCount ≤ fresh.base

/- `chunks` and `live` record the chunks taken and the blocks handed out and not given
back. -/
structure ObjectPool (p : PoolParams) where
  memory : Nat → UInt8
  mFreeList : Nat
  mTotalAllocCount : Int
  mCurrentUseCount : Int
  chunks : List Nat
  live : List Nat

namespace ObjectPool
variable {p : PoolParams}

def initial (memory : Nat → UInt8) : ObjectPool p where
  memory := memory
  mFreeList := 0
  mTotalAllocCount := 0
  mCurrentUseCount := 0
  chunks := []
  live := []

def linkLoop (p : PoolParams) : Nat → Nat → Nat → (Nat → UInt8) → (Nat → UInt8)
  | 0, _, _, memory => memory
  | rounds + 1, pNext, ppCurr, memory =>
      let pNext := pNext + p.containerSize
      let memory := writeWord memory p.ptrSize ppCurr pNext
      linkLoop p rounds pNext pNext memory

def refill (s : ObjectPool p) (fresh : Chunk p) : ObjectPool p :=
  {s with
    memory := linkLoop p (p.allocCount - 1) fresh.base fresh.base
      (store s.memory fresh.base fresh.contents)
    mFreeList := fresh.base
    mTotalAllocCount := signed 32 (s.mTotalAllocCount + p.allocCount)
    chunks := fresh.base :: s.chunks}

def pop (s : ObjectPool p) : Nat × ObjectPool p :=
  let pAvaliable := s.mFreeList
  (pAvaliable, {s with
    mFreeList := readWord s.memory p.ptrSize pAvaliable
    mCurrentUseCount := signed 32 (s.mCurrentUseCount + 1)
    live := pAvaliable :: s.live})

def operatorNew (s : ObjectPool p) (fresh : Chunk p) : Nat × ObjectPool p :=
  if s.mFreeList = 0 then (s.refill fresh).pop else s.pop

def operatorDelete (s : ObjectPool p) (obj : Nat) : Option (ObjectPool p) :=
  if s.mCurrentUseCount > 0 then
    some {s with
      mCurrentUseCount := signed 32 (s.mCurrentUseCount - 1)
      memory := writeWord s.memory p.ptrSize obj s.mFreeList
      mFreeList := obj
      live := s.live.erase obj}
  else none

def slots (p : PoolParams) : Nat → Nat → List Nat
  | _, 0 => []
  | base, count + 1 => base :: slots p (base + p.containerSize) count

def Slot (s : ObjectPool p) (q : Nat) : Prop := ∃ c ∈ s.chunks, q ∈ slots p c p.allocCount
instance (s : ObjectPool p) (q : Nat) : Decidable (s.Slot q) :=
  inferInstanceAs (Decidable (∃ c ∈ s.chunks, q ∈ slots p c p.allocCount))

inductive Action (p : PoolParams) where
  | operatorNew (fresh : Chunk p) (block : Nat)
  | operatorDelete (obj : Nat)
  | use (obj offset : Nat) (data : List UInt8)

/- A fresh chunk is disjoint from the earlier ones. Between the calls the owners write to
their own blocks. -/
inductive Step : ObjectPool p → Action p → ObjectPool p → Prop where
  | operatorNew (s : ObjectPool p) (fresh : Chunk p)
      (disjoint : s.mFreeList = 0 → fresh.Disjoint s.chunks) :
      Step s (.operatorNew fresh (s.operatorNew fresh).1) (s.operatorNew fresh).2
  | operatorDelete (s : ObjectPool p) (obj : Nat) (live : obj ∈ s.live) (t : ObjectPool p)
      (ran : s.operatorDelete obj = some t) : Step s (.operatorDelete obj) t
  | use (s : ObjectPool p) (obj offset : Nat) (data : List UInt8) (live : obj ∈ s.live)
      (inside : offset + data.length ≤ p.containerSize) :
      Step s (.use obj offset data) {s with memory := store s.memory (obj + offset) data}

structure Intact (s : ObjectPool p) : Prop where
  freeList : ∃ free, LinkChain.Chain 0 (readWord s.memory p.ptrSize) s.mFreeList free ∧
    free.Nodup ∧ (∀ q, q ∈ free ↔ s.Slot q ∧ q ∉ s.live) ∧
    s.mTotalAllocCount = s.live.length + free.length
  useCount : s.mCurrentUseCount = s.live.length

end ObjectPool
end IocpNetwork
