import Mathlib.Logic.Basic
import Mathlib.Tactic.Common

/-! Infinite runs of threads that move one at a time, where each thread moves again and
again, and the ranking rule for what such a run does again and again. -/
namespace FairRuns

variable {σ T : Type*}

structure FairRun (step : σ → T → σ) where
  states : Nat → σ
  mover : Nat → T
  follows : ∀ n, states (n + 1) = step (states n) (mover n)
  fair : ∀ t n, ∃ m, n ≤ m ∧ mover m = t

/- Some thread is helpful in every state. Its next move reaches the goal or lowers the rank,
and until then the other moves do so too or leave both it helpful and the rank as it is. -/
structure Ranking (step : σ → T → σ) (I : σ → Prop) (Goal : σ → T → Prop) where
  rank : σ → Nat
  Helpful : σ → T → Prop
  keeps : ∀ s t, I s → I (step s t)
  helped : ∀ s, I s → ∃ t, Helpful s t
  lowers : ∀ s t, I s → Helpful s t → Goal s t ∨ rank (step s t) < rank s
  waits : ∀ s t u, I s → Helpful s t → u ≠ t → Goal s u ∨ rank (step s u) < rank s ∨
    (rank (step s u) = rank s ∧ Helpful (step s u) t)

variable {step : σ → T → σ} {I : σ → Prop} {Goal : σ → T → Prop}

theorem FairRun.invariant (run : FairRun step) (keeps : ∀ s t, I s → I (step s t))
    (start : I (run.states 0)) (n : Nat) : I (run.states n) := by
  induction n with
  | zero => exact start
  | succ n ih =>
    rw [run.follows]
    exact keeps _ _ ih

theorem Ranking.progress (ranking : Ranking step I Goal) (run : FairRun step) {t : T} (wait : Nat) :
    ∀ n, I (run.states n) → ranking.Helpful (run.states n) t → run.mover (n + wait) = t →
      ∃ m, n ≤ m ∧ (Goal (run.states m) (run.mover m) ∨
        (I (run.states m) ∧ ranking.rank (run.states m) < ranking.rank (run.states n))) := by
  induction wait with
  | zero =>
    intro n inv helpful moves
    obtain rfl : run.mover n = t := moves
    rcases ranking.lowers _ _ inv helpful with goal | lower
    · exact ⟨n, Nat.le_refl _, .inl goal⟩
    · rw [← run.follows] at lower
      have inv' := ranking.keeps _ (run.mover n) inv
      rw [← run.follows] at inv'
      exact ⟨n + 1, Nat.le_succ _, .inr ⟨inv', lower⟩⟩
  | succ wait ih =>
    intro n inv helpful moves
    have inv' := ranking.keeps _ (run.mover n) inv
    rw [← run.follows] at inv'
    have next : Goal (run.states n) (run.mover n) ∨
        ranking.rank (run.states (n + 1)) < ranking.rank (run.states n) ∨
        (ranking.rank (run.states (n + 1)) = ranking.rank (run.states n) ∧
          ranking.Helpful (run.states (n + 1)) t) := by
      rw [run.follows]
      by_cases same : run.mover n = t
      · subst same
        rcases ranking.lowers _ _ inv helpful with goal | lower
        · exact .inl goal
        · exact .inr (.inl lower)
      · exact ranking.waits _ t _ inv helpful same
    rcases next with goal | lower | ⟨level, helpful'⟩
    · exact ⟨n, Nat.le_refl _, .inl goal⟩
    · exact ⟨n + 1, Nat.le_succ _, .inr ⟨inv', lower⟩⟩
    · obtain ⟨m, later, outcome⟩ := ih (n + 1) inv' helpful' (by rw [← moves]; congr 1; omega)
      rw [level] at outcome
      exact ⟨m, by omega, outcome⟩

theorem Ranking.reaches (ranking : Ranking step I Goal) (run : FairRun step) (start : I (run.states 0))
    (n : Nat) : ∃ m, n ≤ m ∧ Goal (run.states m) (run.mover m) := by
  have descend : ∀ k n, I (run.states n) → ranking.rank (run.states n) = k →
      ∃ m, n ≤ m ∧ Goal (run.states m) (run.mover m) := by
    intro k
    induction k using Nat.strongRecOn with
    | ind k ih =>
      intro n inv level
      obtain ⟨t, helpful⟩ := ranking.helped _ inv
      obtain ⟨move, later, moves⟩ := run.fair t n
      obtain ⟨wait, rfl⟩ := Nat.exists_eq_add_of_le later
      obtain ⟨m, after, goal | ⟨inv', lower⟩⟩ := ranking.progress run wait n inv helpful moves
      · exact ⟨m, after, goal⟩
      · obtain ⟨m', after', goal⟩ := ih _ (level ▸ lower) m inv' rfl
        exact ⟨m', by omega, goal⟩
  exact descend _ n (run.invariant ranking.keeps start n) rfl

end FairRuns
