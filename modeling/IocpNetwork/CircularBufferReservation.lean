import IocpNetwork.CircularBufferRegions
import IocpNetwork.Lib.Runs

/-! Asynchronous use of a CircularBuffer: the room of one reservation is handed to the
kernel, and other threads remove bytes and ask for free space before it is committed. -/
namespace IocpNetwork.CircularBuffer
open Runs (Run Reachable)

variable {w : Nat}

namespace Async

structure Reservation where
  start : Nat
  size : Nat
  deriving DecidableEq, Repr

structure State (w : Nat) where
  buffer : CircularBuffer w
  reserved : Option Reservation

inductive Action (w : Nat) where
  | reserve
  | freeSpaceSize
  | remove (len : BitVec w)
  | deliver (data : List UInt8)
  | commit (n : Nat)

/- `deliver` is the kernel writing into the reserved range; `commit` is unchecked in
the source, and its caller passes at most what was reserved. -/
inductive Step : State w → Action w → State w → Prop where
  | reserve (s : State w) (free : s.reserved = none) :
      Step s .reserve ⟨s.buffer.getFreeSpaceSize.2,
        some ⟨s.buffer.getFreeSpaceSize.2.getBuffer, s.buffer.getFreeSpaceSize.1⟩⟩
  | freeSpaceSize (s : State w) : Step s .freeSpaceSize ⟨s.buffer.getFreeSpaceSize.2, s.reserved⟩
  | remove (s : State w) (len : BitVec w) :
      Step s (.remove len) ⟨s.buffer.remove len.toNat, s.reserved⟩
  | deliver (s : State w) (r : Reservation) (data : List UInt8) (held : s.reserved = some r)
      (room : data.length ≤ r.size) : Step s (.deliver data) ⟨s.buffer.write r.start data, s.reserved⟩
  | commit (s : State w) (r : Reservation) (n : Nat) (held : s.reserved = some r)
      (room : n ≤ r.size) : Step s (.commit n) ⟨s.buffer.commit n, none⟩

def initial (memory : Nat → UInt8) (buffer : Nat) (capacity : BitVec w) : State w :=
  ⟨create memory buffer capacity, none⟩

structure Inv (s : State w) : Prop where
  valid : s.buffer.Valid
  covered : ∀ r, s.reserved = some r → r.size ≤ s.buffer.writeSpace
  inside : ∀ r, s.reserved = some r →
    s.buffer.mBuffer ≤ r.start ∧ r.start + r.size ≤ s.buffer.mBufferEnd

end Async

theorem Valid.removeWriteSpace {b : CircularBuffer w} (v : b.Valid) {len : Nat}
    (fitsLen : len < 2 ^ w) : b.writeSpace ≤ (b.remove len).writeSpace := by
  have start := v.aStart
  have inside := v.aInside
  have stop := v.bufferEnd
  have stored := v.storedFits
  have bound : b.writeSpace ≤ b.mBufferEnd - b.mBuffer := by
    have := v.writeRangeInside
    omega
  rcases v.removeCases fitsLen with ⟨inA, same⟩ | ⟨all, inB, same⟩ | ⟨all, same⟩
  · rw [same]
    cases h : b.mBRegionPointer with
    | none => simp only [writeSpace, h]; omega
    | some p => simp only [writeSpace, h]; omega
  · cases h : b.mBRegionPointer with
    | none => have := v.bNull h; omega
    | some p =>
      have before := v.bInside p h
      rw [same]
      simp only [writeSpace, h]
      omega
  · rw [same]
    simp only [writeSpace] at bound ⊢
    omega

namespace Async

theorem initialInv (memory : Nat → UInt8) (buffer : Nat) (capacity : BitVec w) :
    Inv (initial memory buffer capacity) :=
  ⟨createValid memory buffer capacity, fun _ h => (by cases h), fun _ h => (by cases h)⟩

theorem stepInv (s : State w) (a : Action w) (t : State w) (inv : Inv s) (h : Step s a t) : Inv t := by
  obtain ⟨v, covered, inside⟩ := inv
  cases h with
  | reserve free =>
    have range := v.getFreeSpaceSizeValid.writeRangeInside
    rw [← v.getFreeSpaceSizeResult] at range
    refine ⟨v.getFreeSpaceSizeValid, fun r held => ?_, fun r held => ?_⟩
    · cases held
      exact Nat.le_of_eq v.getFreeSpaceSizeResult
    · cases held
      exact range
  | freeSpaceSize =>
    have block := v.getFreeSpaceSizeBlock
    refine ⟨v.getFreeSpaceSizeValid, fun r held => ?_, fun r held => ?_⟩
    · exact (covered r held).trans v.getFreeSpaceSizeGrows
    · rw [block.1, block.2]
      exact inside r held
  | remove len =>
    have block := v.removeBlock len.isLt
    refine ⟨v.removeValid len.isLt, fun r held => ?_, fun r held => ?_⟩
    · exact (covered r held).trans (v.removeWriteSpace len.isLt)
    · rw [block.1, block.2]
      exact inside r held
  | deliver r data held room => exact ⟨writeValid v r.start data, covered, inside⟩
  | commit r n held room =>
    exact ⟨v.commitValid (room.trans (covered r held)), fun _ none => (by cases none),
      fun _ none => (by cases none)⟩

theorem reachableInv {memory : Nat → UInt8} {buffer : Nat} {capacity : BitVec w} {s : State w}
    (reached : Reachable Step (initial memory buffer capacity) s) : Inv s :=
  reached.invariant stepInv (initialInv memory buffer capacity)

def Reached (capacity : BitVec w) (b : CircularBuffer w) : Prop :=
  ∃ memory buffer s, Reachable Step (initial memory buffer capacity) s ∧ s.buffer = b

theorem stepCapacity (s : State w) (a : Action w) (t : State w) (inv : Inv s) (h : Step s a t) :
    t.buffer.mCapacity = s.buffer.mCapacity := by
  have v := inv.valid
  have v' := (stepInv s a t inv h).valid
  cases h with
  | reserve =>
    obtain ⟨start, stop⟩ := v.getFreeSpaceSizeBlock
    exact v.sameCapacity v' start stop
  | freeSpaceSize =>
    obtain ⟨start, stop⟩ := v.getFreeSpaceSizeBlock
    exact v.sameCapacity v' start stop
  | remove len =>
    obtain ⟨start, stop⟩ := v.removeBlock len.isLt
    exact v.sameCapacity v' start stop
  | deliver => rfl
  | commit =>
    simp only [commit]
    split <;> rfl

theorem Reached.validCapacity {capacity : BitVec w} {b : CircularBuffer w} (reached : Reached capacity b) :
    b.Valid ∧ b.mCapacity = capacity.toNat := by
  obtain ⟨memory, buffer, s, reachable, rfl⟩ := reached
  have kept := reachable.invariant (I := fun s => Inv s ∧ s.buffer.mCapacity = capacity.toNat)
    (fun s a t inv h => ⟨stepInv s a t inv.1 h, (stepCapacity s a t inv.1 h).trans inv.2⟩)
    ⟨initialInv memory buffer capacity, rfl⟩
  exact ⟨kept.1.valid, kept.2⟩

end Async

/- The operands of every unsigned subtraction, as its function evaluates them. -/
structure NoUnderflow (b : CircularBuffer w) (len : Nat) : Prop where
  aFreeSpace : b.mARegionPointer ≤ b.mBufferEnd ∧ b.mARegionSize ≤ b.mBufferEnd - b.mARegionPointer
  spaceBeforeA : b.mBuffer ≤ b.mARegionPointer
  bFreeSpace : ∀ p, b.mBRegionPointer = some p →
    p ≤ b.mARegionPointer ∧ b.mBRegionSize ≤ b.mARegionPointer - p
  bFreeSpaceAllocated : b.mBRegionPointer = none →
    b.mBuffer ≤ b.mARegionPointer ∧ b.mBRegionSize ≤ b.mARegionPointer - b.mBuffer
  removeA : b.aRemove len ≤ b.mARegionSize ∧ b.aRemove len ≤ len
  removeB : (b.removeA len).1.bRemove (b.removeA len).2 ≤ (b.removeA len).1.mBRegionSize ∧
    (b.removeA len).1.bRemove (b.removeA len).2 ≤ (b.removeA len).2

theorem aRemoveBounds (b : CircularBuffer w) (cnt : Nat) :
    b.aRemove cnt ≤ b.mARegionSize ∧ b.aRemove cnt ≤ cnt := by
  unfold aRemove
  split <;> omega

theorem bRemoveBounds (b : CircularBuffer w) (cnt : Nat) :
    b.bRemove cnt ≤ b.mBRegionSize ∧ b.bRemove cnt ≤ cnt := by
  unfold bRemove
  split <;> omega

theorem Valid.noUnderflow {b : CircularBuffer w} (v : b.Valid) (len : Nat) : b.NoUnderflow len where
  aFreeSpace := by
    have := v.aInside
    omega
  spaceBeforeA := v.aStart
  bFreeSpace := fun p h => by
    have := v.bInside p h
    omega
  bFreeSpaceAllocated := fun h => by
    have := v.bNull h
    have := v.aStart
    omega
  removeA := aRemoveBounds b len
  removeB := bRemoveBounds _ _

structure Safe (b : CircularBuffer w) : Prop where
  noUnderflow : ∀ len : BitVec w, b.NoUnderflow len.toNat
  aInside : b.mBuffer ≤ b.mARegionPointer ∧ b.mARegionPointer + b.mARegionSize ≤ b.mBufferEnd
  bInside : ∀ p, b.mBRegionPointer = some p → b.mBuffer ≤ p ∧ p + b.mBRegionSize ≤ b.mBufferEnd
  bFirst : ∀ p, b.mBRegionPointer = some p →
    p = b.mBuffer ∧ p + b.mBRegionSize ≤ b.mARegionPointer ∧ 0 < b.mARegionSize
  disjoint : ∀ p a, b.mBRegionPointer = some p → p ≤ a → a < p + b.mBRegionSize →
    ¬ (b.mARegionPointer ≤ a ∧ a < b.mARegionPointer + b.mARegionSize)
  aEmpty : b.mARegionSize = 0 → b.mARegionPointer = b.mBuffer ∧ b.mBRegionPointer = none

theorem Valid.safe {b : CircularBuffer w} (v : b.Valid) : b.Safe where
  noUnderflow := fun len => v.noUnderflow len.toNat
  aInside := ⟨v.aStart, v.aInside⟩
  bInside := fun p h => by
    have := v.bInside p h
    have := v.aInside
    omega
  bFirst := fun p h => ⟨(v.bInside p h).1, (v.bInside p h).2, v.aNonempty h⟩
  disjoint := fun p a h low high inA => by
    have := v.bInside p h
    omega
  aEmpty := v.aEmpty

def ReservedRangeFree (b : CircularBuffer w) : Prop :=
  let f := b.getFreeSpaceSize.1
  let p := b.getFreeSpaceSize.2.getBuffer
  b.mBuffer ≤ p ∧ p + f ≤ b.mBufferEnd ∧ ∀ a, p ≤ a → a < p + f → ¬ b.Stored a

theorem allocateBStored {b : CircularBuffer w} (v : b.Valid) (free : b.mBRegionPointer = none) (a : Nat) :
    b.allocateB.Stored a ↔ b.Stored a := by
  have size := v.bNull free
  simp [Stored, allocateB, free, size]

theorem Valid.reservedRange {b : CircularBuffer w} (v : b.Valid) : b.ReservedRangeFree := by
  have valid := v.getFreeSpaceSizeValid
  have result := v.getFreeSpaceSizeResult
  have range := valid.writeRangeInside
  have free := fun a => valid.writeRangeFree (a := a)
  rw [← result] at range free
  rcases v.getFreeSpaceSizeCases with ⟨same, _⟩ | ⟨none, _, allocated⟩
  · simp only [ReservedRangeFree, same] at range free ⊢
    exact ⟨range.1, range.2, fun a low high => free a low high⟩
  · simp only [ReservedRangeFree, allocated] at range free ⊢
    refine ⟨range.1, range.2, fun a low high stored => ?_⟩
    exact free a low high ((allocateBStored v none a).mpr stored)

theorem asyncSafe (memory : Nat → UInt8) (buffer : Nat) (capacity : BitVec w) (s : Async.State w)
    (reached : Reachable Async.Step (Async.initial memory buffer capacity) s) :
    s.buffer.Safe ∧ s.buffer.ReservedRangeFree ∧
    ∀ r, s.reserved = some r → r.size ≤ s.buffer.writeSpace ∧
      s.buffer.mBuffer ≤ r.start ∧ r.start + r.size ≤ s.buffer.mBufferEnd := by
  obtain ⟨v, covered, inside⟩ := Async.reachableInv reached
  exact ⟨v.safe, v.reservedRange, fun r held => ⟨covered r held, inside r held⟩⟩

/- The reservation is made in A, and its bytes are committed to B: between the two a
removal and another call of `GetFreeSpaceSize` have moved the write position. -/
theorem asyncSafeMovedWrite : ∃ s : Async.State 64,
    Reachable Async.Step (Async.initial (fun _ => 0) 4096 8#64) s ∧
    s.buffer.mBRegionPointer = some 4096 ∧ s.buffer.mBRegionSize = 3 ∧ s.buffer.Safe := by
  have run : ∃ moves s, Run Async.Step (Async.initial (fun _ => 0) 4096 8#64) moves s ∧
      s.buffer.mBRegionPointer = some 4096 ∧ s.buffer.mBRegionSize = 3 :=
    ⟨_, _, .more (.reserve _ rfl) (.more (.commit _ _ 5 rfl (by decide)) (.more (.reserve _ rfl)
      (.more (.remove _ 4#64) (.more (.freeSpaceSize _) (.more (.commit _ _ 3 rfl (by decide))
      (.done _)))))), by decide, by decide⟩
  obtain ⟨moves, s, run, start, size⟩ := run
  exact ⟨s, ⟨moves, run⟩, start, size, (asyncSafe _ _ _ s ⟨moves, run⟩).1⟩

end IocpNetwork.CircularBuffer
