import IocpNetwork.Lib.MachineWords
import IocpNetwork.Lib.ByteMemory

/-! CircularBuffer.hpp, one text for both servers. Pointers are addresses, with `none`
for nullptr; sizes are size_t words of `w` bits, and every unsigned operation of the
source wraps here as it does there. `memory` is what the addresses hold: the block
that the constructor allocates has arbitrary contents. -/
namespace IocpNetwork
open ByteMemory (bytesAt store move)
open MachineWords (unsigned addWord subWord)

structure CircularBuffer (w : Nat) where
  memory : Nat → UInt8
  mBuffer : Nat
  mBufferEnd : Nat
  mARegionPointer : Nat
  mARegionSize : Nat
  mBRegionPointer : Option Nat
  mBRegionSize : Nat
  mCapacity : Nat

namespace CircularBuffer
variable {w : Nat}

def create (memory : Nat → UInt8) (buffer : Nat) (capacity : BitVec w) : CircularBuffer w where
  memory := memory
  mBuffer := buffer
  mBufferEnd := buffer + capacity.toNat
  mARegionPointer := buffer
  mARegionSize := 0
  mBRegionPointer := none
  mBRegionSize := 0
  mCapacity := capacity.toNat

def bufferReset (b : CircularBuffer w) : CircularBuffer w :=
  {b with
    mBRegionPointer := none
    mARegionSize := 0
    mBRegionSize := 0
    memory := store b.memory b.mBuffer (List.replicate b.mCapacity 0)
    mBufferEnd := b.mBuffer + b.mCapacity
    mARegionPointer := b.mBuffer}

/- The three parts of `Remove`: what is taken from A, what is left of the count and
taken from B, and the choice of regions once A is empty. -/
def aRemove (b : CircularBuffer w) (cnt : Nat) : Nat :=
  if cnt > b.mARegionSize then b.mARegionSize else cnt

def removeA (b : CircularBuffer w) (cnt : Nat) : CircularBuffer w × Nat :=
  if b.mARegionSize > 0 then
    ({b with
      mARegionSize := subWord w b.mARegionSize (b.aRemove cnt)
      mARegionPointer := b.mARegionPointer + b.aRemove cnt},
    subWord w cnt (b.aRemove cnt))
  else (b, cnt)

def bRemove (b : CircularBuffer w) (cnt : Nat) : Nat :=
  if cnt > b.mBRegionSize then b.mBRegionSize else cnt

def removeB (b : CircularBuffer w) (cnt : Nat) : CircularBuffer w × Nat :=
  if cnt > 0 ∧ b.mBRegionSize > 0 then
    ({b with
      mBRegionSize := subWord w b.mBRegionSize (b.bRemove cnt)
      mBRegionPointer := b.mBRegionPointer.map (· + b.bRemove cnt)},
    subWord w cnt (b.bRemove cnt))
  else (b, cnt)

def settle (b : CircularBuffer w) : CircularBuffer w :=
  if b.mARegionSize = 0 then
    if b.mBRegionSize > 0 then
      {b with
        memory := match b.mBRegionPointer with
          | none => b.memory
          | some p => if p ≠ b.mBuffer then move b.memory b.mBuffer p b.mBRegionSize else b.memory
        mARegionPointer := b.mBuffer
        mARegionSize := b.mBRegionSize
        mBRegionPointer := none
        mBRegionSize := 0}
    else
      {b with
        mBRegionPointer := none
        mBRegionSize := 0
        mARegionPointer := b.mBuffer
        mARegionSize := 0}
  else b

def remove (b : CircularBuffer w) (len : Nat) : CircularBuffer w :=
  let (b, cnt) := b.removeA len
  (b.removeB cnt).1.settle

def allocateB (b : CircularBuffer w) : CircularBuffer w := {b with mBRegionPointer := some b.mBuffer}

def getAFreeSpace (b : CircularBuffer w) : Nat :=
  subWord w (unsigned w ((b.mBufferEnd : Int) - b.mARegionPointer)) b.mARegionSize

def getSpaceBeforeA (b : CircularBuffer w) : Nat :=
  unsigned w ((b.mARegionPointer : Int) - b.mBuffer)

def getBFreeSpace (b : CircularBuffer w) : Nat :=
  match b.mBRegionPointer with
  | none => 0
  | some p => subWord w (unsigned w ((b.mARegionPointer : Int) - p)) b.mBRegionSize

/- Not a pure query: where the space before A is the larger one, B is allocated and
later writes go there. -/
def getFreeSpaceSize (b : CircularBuffer w) : Nat × CircularBuffer w :=
  if b.mBRegionPointer ≠ none then (b.getBFreeSpace, b)
  else if b.getAFreeSpace < b.getSpaceBeforeA then (b.allocateB.getBFreeSpace, b.allocateB)
  else (b.getAFreeSpace, b)

def getStoredSize (b : CircularBuffer w) : Nat := addWord w b.mARegionSize b.mBRegionSize

def getContiguiousBytes (b : CircularBuffer w) : Nat :=
  if b.mARegionSize > 0 then b.mARegionSize else b.mBRegionSize

def getBuffer (b : CircularBuffer w) : Nat :=
  match b.mBRegionPointer with
  | some p => p + b.mBRegionSize
  | none => b.mARegionPointer + b.mARegionSize

def commit (b : CircularBuffer w) (len : Nat) : CircularBuffer w :=
  match b.mBRegionPointer with
  | some _ => {b with mBRegionSize := addWord w b.mBRegionSize len}
  | none => {b with mARegionSize := addWord w b.mARegionSize len}

def getBufferStart (b : CircularBuffer w) : Option Nat :=
  if b.mARegionSize > 0 then some b.mARegionPointer else b.mBRegionPointer

/- A caller's `memcpy` to `p`, an address it got from `GetBuffer`. -/
def write (b : CircularBuffer w) (p : Nat) (data : List UInt8) : CircularBuffer w :=
  {b with memory := store b.memory p data}

def content (b : CircularBuffer w) : List UInt8 :=
  bytesAt b.memory b.mARegionPointer b.mARegionSize ++
    match b.mBRegionPointer with
    | none => []
    | some p => bytesAt b.memory p b.mBRegionSize

/- What every reachable state has. B exists only in front of a non-empty A, and an
empty A stands at the start of the buffer. -/
structure Valid (b : CircularBuffer w) : Prop where
  capacityFits : b.mCapacity < 2 ^ w
  bufferEnd : b.mBufferEnd = b.mBuffer + b.mCapacity
  aStart : b.mBuffer ≤ b.mARegionPointer
  aInside : b.mARegionPointer + b.mARegionSize ≤ b.mBufferEnd
  aEmpty : b.mARegionSize = 0 → b.mARegionPointer = b.mBuffer ∧ b.mBRegionPointer = none
  bNull : b.mBRegionPointer = none → b.mBRegionSize = 0
  bInside : ∀ p, b.mBRegionPointer = some p →
    p = b.mBuffer ∧ p + b.mBRegionSize ≤ b.mARegionPointer

theorem restartValid {b : CircularBuffer w} (fits : b.mCapacity < 2 ^ w)
    (bufferEnd : b.mBufferEnd = b.mBuffer + b.mCapacity) (atStart : b.mARegionPointer = b.mBuffer)
    (inside : b.mBuffer + b.mARegionSize ≤ b.mBufferEnd) (noB : b.mBRegionPointer = none)
    (emptyB : b.mBRegionSize = 0) : b.Valid where
  capacityFits := fits
  bufferEnd := bufferEnd
  aStart := Nat.le_of_eq atStart.symm
  aInside := atStart ▸ inside
  aEmpty := fun _ => ⟨atStart, noB⟩
  bNull := fun _ => emptyB
  bInside := fun _ h => by cases noB.symm.trans h

theorem createValid (memory : Nat → UInt8) (buffer : Nat) (capacity : BitVec w) :
    (create memory buffer capacity).Valid :=
  restartValid capacity.isLt rfl rfl (Nat.le_add_right _ _) rfl rfl

theorem bufferResetValid {b : CircularBuffer w} (fits : b.mCapacity < 2 ^ w) :
    b.bufferReset.Valid :=
  restartValid fits rfl rfl (Nat.le_add_right _ _) rfl rfl

theorem Valid.contiguousA {b : CircularBuffer w} (v : b.Valid) : b.getContiguiousBytes = b.mARegionSize := by
  unfold getContiguiousBytes
  split
  · rfl
  · have size := v.bNull (v.aEmpty (by omega)).2
    omega

end CircularBuffer
end IocpNetwork
