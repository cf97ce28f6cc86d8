import Mathlib.Data.Fintype.Card
import Mathlib.Logic.Function.Basic

/-! Counting the threads of a finite system whose program counter has a property, while
one thread moves at a time. -/
namespace ThreadCount

variable {T β : Type*} [Fintype T] {P Q : β → Prop} [DecidablePred P] [DecidablePred Q] {f : T → β}

def count (P : β → Prop) [DecidablePred P] (f : T → β) : Nat := (Finset.univ.filter fun t => P (f t)).card

theorem countBounded : count P f ≤ Fintype.card T := Finset.card_le_univ _

theorem countMono (weaker : ∀ b, P b → Q b) : count P f ≤ count Q f :=
  Finset.card_le_card fun _ mem =>
    Finset.mem_filter.mpr ⟨Finset.mem_univ _, weaker _ (Finset.mem_filter.mp mem).2⟩

theorem countNone (none : ∀ t, ¬ P (f t)) : count P f = 0 := by
  rw [count, Finset.card_eq_zero, Finset.filter_eq_empty_iff]
  exact fun t _ => none t

theorem countSome (some : 0 < count P f) : ∃ t, P (f t) := by
  by_contra none
  rw [countNone fun t holds => none ⟨t, holds⟩] at some
  exact absurd some (Nat.lt_irrefl 0)

theorem countPositive {t : T} (holds : P (f t)) : 0 < count P f :=
  Finset.card_pos.mpr ⟨t, Finset.mem_filter.mpr ⟨Finset.mem_univ t, holds⟩⟩

theorem countAtMostOne (few : count P f ≤ 1) {t u : T} (left : P (f t)) (right : P (f u)) : t = u :=
  Finset.card_le_one.mp few t (Finset.mem_filter.mpr ⟨Finset.mem_univ _, left⟩) u
    (Finset.mem_filter.mpr ⟨Finset.mem_univ _, right⟩)

theorem countDisjoint [DecidableEq T] (apart : ∀ b, P b → ¬ Q b) : count P f + count Q f ≤ Fintype.card T := by
  have disjoint : Disjoint (Finset.univ.filter fun t => P (f t)) (Finset.univ.filter fun t => Q (f t)) :=
    Finset.disjoint_filter.mpr fun t _ => apart (f t)
  have both := Finset.card_union_of_disjoint disjoint
  unfold count
  rw [← both]
  exact Finset.card_le_univ _

theorem countUpdate [DecidableEq T] (t : T) (b : β) :
    count P (Function.update f t b) + (if P (f t) then 1 else 0) =
      count P f + if P b then 1 else 0 := by
  have others : ∀ g : T → β, count P g =
      ((Finset.univ.erase t).filter fun u => P (g u)).card + if P (g t) then 1 else 0 := by
    intro g
    have split : (Finset.univ : Finset T) = insert t (Finset.univ.erase t) :=
      (Finset.insert_erase (Finset.mem_univ t)).symm
    unfold count
    rw [split, Finset.filter_insert]
    split_ifs with here
    · rw [Finset.card_insert_of_notMem (by simp)]
      simp
    · simp
  have same : (Finset.univ.erase t).filter (fun u => P (Function.update f t b u)) =
      (Finset.univ.erase t).filter fun u => P (f u) := by
    apply Finset.filter_congr
    intro u mem
    rw [Function.update_of_ne (Finset.ne_of_mem_erase mem)]
  rw [others (Function.update f t b), others f, same, Function.update_self]
  omega

end ThreadCount
