import Mathlib.Algebra.Ring.Int.Defs
import Mathlib.Algebra.Ring.Nat
import Mathlib.Tactic.Common

/-! Fixed-width machine integers as numbers with an explicit wrap: unsigned words of
any width, signed words in balanced representation. A result that is in range is the
mathematical one. -/
namespace MachineWords

def unsigned (w : Nat) (x : Int) : Nat := (x % (2 : Int) ^ w).toNat

def addWord (w a b : Nat) : Nat := unsigned w ((a : Int) + b)

def subWord (w a b : Nat) : Nat := unsigned w ((a : Int) - b)

def mulWord (w a b : Nat) : Nat := unsigned w ((a : Int) * b)

def signed (w : Nat) (x : Int) : Int := Int.bmod x (2 ^ w)

theorem unsignedExact {w : Nat} {x : Int} (nonneg : 0 ≤ x) (fits : x < (2 : Int) ^ w) :
    (unsigned w x : Int) = x := by
  unfold unsigned
  rw [Int.emod_eq_of_lt nonneg fits, Int.toNat_of_nonneg nonneg]

theorem addWordExact {w a b : Nat} (fits : a + b < 2 ^ w) : addWord w a b = a + b := by
  have h : (unsigned w ((a : Int) + b) : Int) = (a : Int) + b :=
    unsignedExact (by omega) (by exact_mod_cast fits)
  unfold addWord
  exact_mod_cast h

theorem subWordExact {w a b : Nat} (le : b ≤ a) (fits : a < 2 ^ w) :
    subWord w a b = a - b := by
  have below : ((a : Int) - b) < (2 : Int) ^ w := by
    have : (a : Int) < (2 : Int) ^ w := by exact_mod_cast fits
    omega
  have h : (unsigned w ((a : Int) - b) : Int) = (a : Int) - b := unsignedExact (by omega) below
  unfold subWord
  omega

theorem doublePower (w : Nat) : ((2 ^ (w + 1) : Nat) : Int) = 2 * (2 : Int) ^ w := by
  rw [Nat.pow_succ]
  push_cast
  omega

theorem signedExact {w : Nat} {x : Int} (low : -(2 : Int) ^ w ≤ x)
    (high : x < (2 : Int) ^ w) : signed (w + 1) x = x := by
  have power := doublePower w
  unfold signed
  apply Int.bmod_eq_of_le <;> rw [power] <;> omega

theorem signedBelow (w : Nat) (x : Int) : signed (w + 1) x < (2 : Int) ^ w := by
  have bound := Int.bmod_lt (x := x) (m := 2 ^ (w + 1)) (Nat.two_pow_pos _)
  have power := doublePower w
  unfold signed
  omega

theorem incrementExact {w : Nat} {n : Int} (nonneg : 0 ≤ n) (small : n < (2 : Int) ^ w)
    (positive : 0 < signed (w + 1) (n + 1)) :
    signed (w + 1) (n + 1) = n + 1 ∧ n + 1 < (2 : Int) ^ w := by
  have power := doublePower w
  have less : n + 1 < (2 : Int) ^ w := by
    by_contra wrapped
    have small' : (n + 1) % (2 ^ (w + 1) : Nat) = n + 1 := Int.emod_eq_of_lt (by omega) (by omega)
    unfold signed at positive
    rw [Int.bmod_def, small', if_neg (by omega)] at positive
    omega
  exact ⟨signedExact (by omega) less, less⟩

theorem decrementExact {w : Nat} {n : Int} (nonneg : 0 ≤ n) (small : n < (2 : Int) ^ w) :
    signed (w + 1) (n - 1) = n - 1 := by
  have power : 0 < (2 : Int) ^ w := by omega
  exact signedExact (by omega) (by omega)

/- Narrowing undoes an earlier wrap of the wider word, and a sum can be wrapped late. -/
theorem signedUnsigned {k w : Nat} (narrower : k ≤ w) (x : Int) : signed k (unsigned w x) = signed k x := by
  have nonneg : 0 ≤ x % (2 : Int) ^ w := Int.emod_nonneg _ (Int.ne_of_gt (Int.pow_pos (by omega)))
  have divides : ((2 ^ k : Nat) : Int) ∣ (2 : Int) ^ w := by
    exact_mod_cast Nat.pow_dvd_pow 2 narrower
  unfold signed unsigned
  rw [Int.toNat_of_nonneg nonneg, ← Int.emod_bmod, Int.emod_emod_of_dvd _ divides, Int.emod_bmod]

theorem signedAdd (k : Nat) (x y : Int) : signed k (signed k x + y) = signed k (x + y) :=
  Int.bmod_add_bmod

theorem signedCases (w : Nat) (x : Int) :
    (x % (2 : Int) ^ (w + 1) < (2 : Int) ^ w ∧ signed (w + 1) x = x % (2 : Int) ^ (w + 1)) ∨
    ((2 : Int) ^ w ≤ x % (2 : Int) ^ (w + 1) ∧ signed (w + 1) x < 0) := by
  have power := doublePower w
  have same : ((2 ^ (w + 1) : Nat) : Int) = (2 : Int) ^ (w + 1) := by push_cast; rfl
  have below := Int.emod_lt_of_pos x (show 0 < (2 : Int) ^ (w + 1) from Int.pow_pos (by omega))
  unfold signed
  rw [Int.bmod_def, same]
  split
  · exact .inl ⟨by omega, rfl⟩
  · exact .inr ⟨by omega, by omega⟩

end MachineWords
