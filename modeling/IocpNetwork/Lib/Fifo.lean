import Mathlib.Tactic.Common

/-! First-in first-out queues over any type, as lists with the oldest item first. -/
namespace Fifo

variable {α : Type*}

inductive Op (α : Type*) where
  | enqueue (xs : List α)
  | dequeue (n : Nat)
  | observe

def apply (q : List α) : Op α → List α
  | .enqueue xs => q ++ xs
  | .dequeue n => q.drop (min n q.length)
  | .observe => q

def run (q : List α) (ops : List (Op α)) : List α := ops.foldl apply q

theorem dropMin (q : List α) (n : Nat) : q.drop (min n q.length) = q.drop n := by
  rcases Nat.le_total n q.length with le | le
  · rw [Nat.min_eq_left le]
  · rw [Nat.min_eq_right le, List.drop_length, List.drop_of_length_le le]

end Fifo
