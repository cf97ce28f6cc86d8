import IocpNetwork.Lib.MachineWords
import Mathlib.Logic.Function.Basic

/-! MemoryPool.hpp. A block is named by the address of its header, a SmallSizeMemoryPool
by the size it was constructed with: the constructor of MemoryPool makes one for each
size. `h` is sizeof(MemAllocInfo). -/
namespace IocpNetwork.MemoryPool
open MachineWords (signed)

inductive Crash where
  | nullPool
  | tableRange
  | popAssert
  | deallocateAssert
  deriving DecidableEq, Repr

structure MemAllocInfo where
  mAllocSize : Int
  mExtraInfo : Int
  deriving DecidableEq, Repr

def maxAllocSize : Nat := 4096

/- `for (int j = recent + 1; j <= i; ++j) mSmallSizeMemoryPoolTable[j] = pool;` -/
def fill (table : Nat → Option Nat) (pool : Nat) : Nat → Nat → Nat → Option Nat
  | _, 0 => table
  | j, rounds + 1 => fill (Function.update table j (some pool)) pool (j + 1) rounds

def poolLoop (stop stride : Nat) : Nat → Nat → Nat × (Nat → Option Nat) → Nat × (Nat → Option Nat)
  | 0, _, state => state
  | rounds + 1, i, (recent, table) =>
      if i < stop then
        poolLoop stop stride rounds (i + stride) (i, fill table i (recent + 1) (i - recent))
      else (recent, table)

def constructed : Nat × (Nat → Option Nat) :=
  poolLoop 4096 256 4096 2048 (poolLoop 2048 128 2048 1024 (poolLoop 1024 32 1024 32 (0, fun _ => none)))

def mSmallSizeMemoryPoolTable : Nat → Option Nat := constructed.2

def poolAt (realAllocSize : Int) : Except Crash Nat :=
  if 0 ≤ realAllocSize ∧ realAllocSize ≤ maxAllocSize then
    match mSmallSizeMemoryPoolTable realAllocSize.toNat with
    | none => .error .nullPool
    | some pool => .ok pool
  else .error .tableRange

/- `physical` holds the size of each block that _aligned_malloc returned and that was not
freed; `header` is what its memory holds at the header's fields. -/
structure Heap where
  mFreeList : Nat → List Nat
  mAllocCount : Nat → Int
  header : Nat → MemAllocInfo
  physical : Nat → Option Nat

namespace Heap

def initial (header : Nat → MemAllocInfo) : Heap := ⟨fun _ => [], fun _ => 0, header, fun _ => none⟩

def alignedMalloc (m : Heap) (size b : Nat) (garbage : MemAllocInfo) : Heap :=
  {m with
    header := Function.update m.header b garbage
    physical := Function.update m.physical b (some size)}

def alignedFree (m : Heap) (b : Nat) : Heap := {m with physical := Function.update m.physical b none}

def interlockedPopEntrySList (m : Heap) (pool : Nat) : Option Nat × Heap :=
  match m.mFreeList pool with
  | [] => (none, m)
  | b :: rest => (some b, {m with mFreeList := Function.update m.mFreeList pool rest})

def interlockedPushEntrySList (m : Heap) (pool b : Nat) : Heap :=
  {m with mFreeList := Function.update m.mFreeList pool (b :: m.mFreeList pool)}

def countAlloc (m : Heap) (pool : Nat) (change : Int) : Heap :=
  {m with mAllocCount := Function.update m.mAllocCount pool (signed 32 (m.mAllocCount pool + change))}

def attachMemAllocInfo (m : Heap) (b : Nat) (size : Int) : Heap :=
  {m with header := Function.update m.header b ⟨size, -1⟩}

def setExtraInfo (m : Heap) (b : Nat) (extraInfo : Int) : Heap :=
  {m with header := Function.update m.header b {m.header b with mExtraInfo := extraInfo}}

def exchangeAllocSize (m : Heap) (b : Nat) : Int × Heap :=
  ((m.header b).mAllocSize,
    {m with header := Function.update m.header b {m.header b with mAllocSize := 0}})

/- `fresh` is the block that _aligned_malloc returns where Pop or Allocate calls it. -/
structure Fresh where
  block : Nat
  garbage : MemAllocInfo
  deriving DecidableEq, Repr

def pop (m : Heap) (pool : Nat) (fresh : Fresh) : Except Crash (Nat × Heap) :=
  match m.interlockedPopEntrySList pool with
  | (none, m) => .ok (fresh.block, (m.alignedMalloc pool fresh.block fresh.garbage).countAlloc pool 1)
  | (some mem, m) =>
      if (m.header mem).mAllocSize = 0 then .ok (mem, m.countAlloc pool 1) else .error .popAssert

def push (m : Heap) (pool b : Nat) : Heap := (m.interlockedPushEntrySList pool b).countAlloc pool (-1)

def realAllocSize (h : Nat) (size : Int) : Int := signed 32 (size + h)

def allocate (h : Nat) (m : Heap) (size : Int) (fresh : Fresh) : Except Crash (Nat × Heap) :=
  let realAllocSize := realAllocSize h size
  if realAllocSize > maxAllocSize then
    let m := m.alignedMalloc realAllocSize.toNat fresh.block fresh.garbage
    .ok (fresh.block + h, m.attachMemAllocInfo fresh.block realAllocSize)
  else do
    let pool ← poolAt realAllocSize
    let (header, m) ← m.pop pool fresh
    .ok (header + h, m.attachMemAllocInfo header realAllocSize)

def deallocate (h : Nat) (m : Heap) (ptr : Nat) (extraInfo : Int) : Except Crash Heap :=
  let header := ptr - h
  let m := m.setExtraInfo header extraInfo
  let (realAllocSize, m) := m.exchangeAllocSize header
  if realAllocSize > 0 then
    if realAllocSize > maxAllocSize then .ok (m.alignedFree header)
    else do
      let pool ← poolAt realAllocSize
      .ok (m.push pool header)
  else .error .deallocateAssert

end Heap
end IocpNetwork.MemoryPool
