import IocpNetwork.MemoryPoolServing

/-! STLAllocator of XTL.hpp, over the MemoryPool. The number of bytes is a product in
size_t that is narrowed to the int of Allocate, and a sum there that is narrowed again:
what the pool sees is the size modulo 2^32. -/
namespace IocpNetwork.STLAllocator
open MachineWords
open MemoryPool (Crash Heap Client poolAt maxAllocSize mSmallSizeMemoryPoolTable)
open MemoryPool.Heap (Fresh)
open MemoryPool.Client (Usable Sound)
open Runs (Reachable)

variable {w h : Nat}

/- `size` is sizeof(T). -/
def allocate (w h size : Nat) (m : Heap) (n : BitVec w) (fresh : Fresh) : Except Crash (Nat × Heap) :=
  m.allocate h (signed 32 (mulWord w n.toNat size)) fresh

/- `size + sizeof(MemAllocInfo)` is a sum of size_t too; the narrowing hides it. -/
theorem realAllocSizeWord (wide : 32 ≤ w) (size : Int) :
    signed 32 (addWord w (unsigned w size) h) = Heap.realAllocSize h size := by
  unfold Heap.realAllocSize addWord
  rw [signedUnsigned wide, ← signedAdd 32 (unsigned w size), signedUnsigned wide, signedAdd]

theorem realAllocSizeProduct (wide : 32 ≤ w) (n size : Nat) :
    Heap.realAllocSize h (signed 32 (mulWord w n size)) = signed 32 ((n * size + h : Nat) : Int) := by
  unfold Heap.realAllocSize mulWord
  rw [signedAdd, ← signedAdd, signedUnsigned wide, signedAdd]
  push_cast
  rfl

theorem poolAtFails {r : Int} :
    (r = 0 ∨ (3840 < r ∧ r ≤ 4096) → poolAt r = .error .nullPool) ∧
    (r < 0 → poolAt r = .error .tableRange) := by
  unfold poolAt maxAllocSize
  constructor
  · intro empty
    have null : mSmallSizeMemoryPoolTable r.toNat = none := (MemoryPool.tableNull _).mpr (by omega)
    rw [if_pos ⟨by omega, by omega⟩, null]
  · intro negative
    rw [if_neg (by omega)]

/- A container may use what it asked for, or the process ends at a null pool. What is
read outside of the table is no pool. -/
def Adequate (h : Nat) (bytes : Int) : Except Crash (Nat × Heap) → Prop
  | .ok (ptr, m) => Usable h m ptr bytes
  | .error e => e ≠ .tableRange

def Representable (h bytes : Nat) : Prop :=
  bytes + h < 2 ^ 31 ∨ (bytes + h) % 2 ^ 32 = 0 ∨
    (3840 < (bytes + h) % 2 ^ 32 ∧ (bytes + h) % 2 ^ 32 ≤ 4096)
instance (h bytes : Nat) : Decidable (Representable h bytes) := by
  unfold Representable
  infer_instance

theorem allocateOutcome {s : Client} (sound : Sound h s) (size : Int) (fresh : Fresh)
    (unused : s.heap.physical fresh.block = none) (r : Int) (real : Heap.realAllocSize h size = r) :
    (r < 0 ∧ s.heap.allocate h size fresh = .error .tableRange) ∨
    ((r = 0 ∨ (3840 < r ∧ r ≤ 4096)) ∧ s.heap.allocate h size fresh = .error .nullPool) ∨
    ((0 < r ∧ (r ≤ 3840 ∨ 4096 < r)) ∧ ∃ b room m, s.heap.allocate h size fresh = .ok (b + h, m) ∧ m.physical b = some room ∧
      r ≤ room ∧ (room ≤ 3840 ∨ (room : Int) = r)) := by
  have fails : ∀ e, r ≤ 4096 → poolAt r = .error e → s.heap.allocate h size fresh = .error e := by
    intro e small failed
    unfold Heap.allocate maxAllocSize
    dsimp only
    rw [real, if_neg (by omega), failed]
    rfl
  by_cases negative : r < 0
  · exact .inl ⟨negative, fails _ (by omega) (poolAtFails.2 negative)⟩
  · by_cases empty : r = 0 ∨ (3840 < r ∧ r ≤ 4096)
    · exact .inr (.inl ⟨empty, fails _ (by omega) (poolAtFails.1 empty)⟩)
    · obtain ⟨ptr, m, ran⟩ := sound.allocateRuns size fresh (by rw [real]; omega)
      obtain ⟨_, b, room, rfl, physical, routes⟩ := sound.allocate unused ran
      rw [real] at routes
      refine .inr (.inr ⟨⟨by omega, by omega⟩, b, room, m, ran, physical, routes.fits.2, ?_⟩)
      rcases routes with ⟨_, entry⟩ | ⟨_, same⟩
      · exact .inl (MemoryPool.poolAtOk entry).2.2.1
      · exact .inr same

theorem allocateNeverShort (wide : w = 32 ∨ w = 64) (positive : 0 < h)
    (header : Nat → MemoryPool.MemAllocInfo) (s : Client)
    (reach : Reachable (Client.Step h) (Client.initial header) s) (size : Nat) (n : BitVec w)
    (fresh : Fresh) (unused : s.heap.physical fresh.block = none) :
    (Adequate h ((n.toNat * size : Nat) : Int) (allocate w h size s.heap n fresh) ↔
      Representable h (n.toNat * size)) ∧
    (allocate w h size s.heap n fresh = .error .tableRange ↔
      2 ^ 31 ≤ (n.toNat * size + h) % 2 ^ 32) := by
  have sound : Sound h s := reach.invariant Client.stepSound (Client.initialSound header)
  have real := realAllocSizeProduct (h := h) (show 32 ≤ w by omega) n.toNat size
  have outcome := allocateOutcome sound _ fresh unused _ real
  have rest : (((n.toNat * size + h : Nat) : Int) % 2 ^ 32 < 2 ^ 31 ∧
      signed 32 ((n.toNat * size + h : Nat) : Int) = ((n.toNat * size + h : Nat) : Int) % 2 ^ 32) ∨
      (2 ^ 31 ≤ ((n.toNat * size + h : Nat) : Int) % 2 ^ 32 ∧
        signed 32 ((n.toNat * size + h : Nat) : Int) < 0) := signedCases 31 _
  unfold Representable allocate
  generalize n.toNat * size = bytes at outcome rest ⊢
  generalize signed 32 ((bytes + h : Nat) : Int) = r at outcome rest
  rcases outcome with ⟨negative, failed⟩ | ⟨empty, failed⟩ | ⟨some, b, room, m, ran, physical, large, known⟩
  · rw [failed]
    refine ⟨⟨fun adequate => absurd rfl adequate, fun representable => ?_⟩,
      fun _ => by omega, fun _ => rfl⟩
    omega
  · rw [failed]
    refine ⟨⟨fun _ => by omega, fun _ => by simp [Adequate]⟩, fun same => (by cases same), fun wraps => ?_⟩
    omega
  · rw [ran]
    refine ⟨⟨?_, fun representable => ⟨b, room, rfl, physical, by omega⟩⟩, fun same => (by cases same),
      fun wraps => by omega⟩
    intro usable
    have enough := usable.room physical
    omega

theorem allocateNeverShortVector : ∃ ptr m,
    allocate 64 32 10 (Client.initial fun _ => ⟨7, 7⟩).heap 1000#64 ⟨4096, ⟨5, 5⟩⟩ = .ok (ptr, m) ∧
    Usable 32 m ptr 10000 := by
  have real := realAllocSizeProduct (h := 32) (show 32 ≤ 64 by decide) 1000 10
  have sound : Sound 32 (Client.initial fun _ => ⟨7, 7⟩) := Client.initialSound _
  obtain ⟨ptr, m, ran⟩ := sound.allocateRuns _ ⟨4096, ⟨5, 5⟩⟩ (.inr (by rw [real]; decide))
  have adequate := (allocateNeverShort (h := 32) (.inr rfl) (by decide) (fun _ => ⟨7, 7⟩) _
    ⟨_, .done _⟩ 10 1000#64 ⟨4096, ⟨5, 5⟩⟩ rfl).1.mpr (.inl (by decide))
  have same : allocate 64 32 10 (Client.initial fun _ => ⟨7, 7⟩).heap 1000#64 ⟨4096, ⟨5, 5⟩⟩ =
      .ok (ptr, m) := ran
  rw [same] at adequate
  exact ⟨ptr, m, same, adequate⟩

/- 2^32 elements of one byte are a request of 0 bytes, and get a small block. -/
theorem allocateWraps : ∃ ptr m,
    allocate 64 32 1 (Client.initial fun _ => ⟨7, 7⟩).heap (BitVec.ofNat 64 (2 ^ 32))
      ⟨4096, ⟨5, 5⟩⟩ = .ok (ptr, m) ∧ ¬ Usable 32 m ptr (2 ^ 32) := by
  have real := realAllocSizeProduct (h := 32) (show 32 ≤ 64 by decide) (2 ^ 32) 1
  have sound : Sound 32 (Client.initial fun _ => ⟨7, 7⟩) := Client.initialSound _
  rcases allocateOutcome sound _ ⟨4096, ⟨5, 5⟩⟩ rfl 32 (real.trans (by decide)) with
    ⟨negative, _⟩ | ⟨empty, _⟩ | ⟨_, b, room, m, ran, physical, _, known⟩
  · contradiction
  · omega
  · refine ⟨b + 32, m, ran, fun usable => ?_⟩
    have enough := usable.room physical
    omega

end IocpNetwork.STLAllocator
