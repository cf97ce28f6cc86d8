import IocpNetwork.MemoryPool

/-! What the constructor of MemoryPool puts into its table. Each round fills the entries
from `recent + 1` to its own size, so the entries up to `recent` name a pool that is
large enough, and the rest stays null. -/
namespace IocpNetwork.MemoryPool

theorem fillEntries (table : Nat → Option Nat) (pool j rounds n : Nat) :
    fill table pool j rounds n = if j ≤ n ∧ n < j + rounds then some pool else table n := by
  induction rounds generalizing table j with
  | zero =>
    rw [if_neg (by omega)]
    rfl
  | succ rounds ih =>
    rw [fill, ih]
    by_cases here : n = j
    · subst here
      rw [if_neg (by omega), if_pos (by omega), Function.update_self]
    · rw [Function.update_of_ne here]
      by_cases later : j + 1 ≤ n ∧ n < j + 1 + rounds
      · rw [if_pos later, if_pos (by omega)]
      · rw [if_neg later, if_neg (by omega)]

structure Covered (recent : Nat) (table : Nat → Option Nat) : Prop where
  filled : ∀ n, 1 ≤ n → n ≤ recent → ∃ pool, table n = some pool ∧ n ≤ pool ∧ pool ≤ recent
  empty : ∀ n, n = 0 ∨ recent < n → table n = none

theorem Covered.round {recent : Nat} {table : Nat → Option Nat} (covered : Covered recent table)
    {i : Nat} (next : recent ≤ i) : Covered i (fill table i (recent + 1) (i - recent)) where
  filled := fun n low high => by
    rw [fillEntries]
    by_cases old : n ≤ recent
    · obtain ⟨pool, entry, large, known⟩ := covered.filled n low old
      exact ⟨pool, by rw [if_neg (by omega)]; exact entry, large, by omega⟩
    · exact ⟨i, by rw [if_pos (by omega)], high, Nat.le_refl i⟩
  empty := fun n outside => by
    rw [fillEntries, if_neg (by omega)]
    exact covered.empty n (by omega)

theorem Covered.loop (stop stride rounds i : Nat) {state : Nat × (Nat → Option Nat)}
    (covered : Covered state.1 state.2) (next : state.1 ≤ i) :
    Covered (poolLoop stop stride rounds i state).1 (poolLoop stop stride rounds i state).2 := by
  induction rounds generalizing i state with
  | zero => exact covered
  | succ rounds ih =>
    obtain ⟨recent, table⟩ := state
    rw [poolLoop]
    split
    · exact ih (i + stride) (covered.round next) (Nat.le_add_right i stride)
    · exact covered

/- `recent` as the three loops hand it over. The last one stops short of 4096. -/
theorem recentHandedOver :
    (poolLoop 1024 32 1024 32 (0, fun _ => none)).1 = 992 ∧
    (poolLoop 2048 128 2048 1024 (poolLoop 1024 32 1024 32 (0, fun _ => none))).1 = 1920 ∧
    constructed.1 = 3840 := ⟨rfl, rfl, rfl⟩

theorem tableCovered : Covered 3840 mSmallSizeMemoryPoolTable := by
  obtain ⟨first, second, last⟩ := recentHandedOver
  have none : Covered ((0, fun _ => none) : Nat × (Nat → Option Nat)).1 fun _ => none := ⟨fun n _ _ => by omega, fun _ _ => rfl⟩
  have small := Covered.loop 1024 32 1024 32 none (by decide)
  have middle := Covered.loop 2048 128 2048 1024 small (by omega)
  have large := Covered.loop 4096 256 4096 2048 middle (by omega)
  rw [← last]
  exact large

theorem tableNull (n : Nat) : mSmallSizeMemoryPoolTable n = none ↔ n = 0 ∨ 3840 < n := by
  constructor
  · intro null
    by_contra inside
    obtain ⟨pool, entry, _⟩ := tableCovered.filled n (by omega) (by omega)
    rw [entry] at null
    contradiction
  · exact tableCovered.empty n

theorem tableEntry {n pool : Nat} (entry : mSmallSizeMemoryPoolTable n = some pool) :
    1 ≤ n ∧ n ≤ pool ∧ pool ≤ 3840 := by
  have filled : ¬ (n = 0 ∨ 3840 < n) := fun outside => by
    rw [(tableNull n).mpr outside] at entry
    contradiction
  obtain ⟨pool', entry', large, known⟩ := tableCovered.filled n (by omega) (by omega)
  rw [entry] at entry'
  cases entry'
  exact ⟨by omega, large, known⟩

theorem poolAtOk {r : Int} {pool : Nat} (h : poolAt r = .ok pool) :
    0 < r ∧ r ≤ pool ∧ pool ≤ 3840 ∧ mSmallSizeMemoryPoolTable r.toNat = some pool := by
  unfold poolAt at h
  split at h <;> try contradiction
  split at h <;> try contradiction
  rename_i entry
  cases h
  obtain ⟨low, large, known⟩ := tableEntry entry
  exact ⟨by omega, by omega, known, entry⟩

theorem poolAtNull {r : Int} (positive : 0 < r) (small : r ≤ maxAllocSize) :
    (∃ pool, poolAt r = .ok pool) ↔ r ≤ 3840 := by
  unfold maxAllocSize at small
  constructor
  · rintro ⟨pool, h⟩
    obtain ⟨_, large, known, _⟩ := poolAtOk h
    omega
  · intro filled
    obtain ⟨pool, entry, _⟩ := tableCovered.filled r.toNat (by omega) (by omega)
    refine ⟨pool, ?_⟩
    unfold poolAt maxAllocSize
    rw [if_pos ⟨by omega, by omega⟩, entry]

/- The size field of a block in use leads back to where the block came from. -/
def Routes (r : Int) (room : Nat) : Prop :=
  (0 < r ∧ poolAt r = .ok room) ∨ ((maxAllocSize : Int) < r ∧ (room : Int) = r)

theorem Routes.fits {r : Int} {room : Nat} (routes : Routes r room) : 0 < r ∧ r ≤ room := by
  rcases routes with ⟨positive, entry⟩ | ⟨large, same⟩
  · exact ⟨positive, (poolAtOk entry).2.1⟩
  · unfold maxAllocSize at large
    omega

end IocpNetwork.MemoryPool
