import Mathlib.Logic.Basic

/-! Taking apart sequences of fallible steps, the errors that a sequence can end with,
and loops that an error ends. -/
namespace Fallible

variable {ε α β : Type} {e : ε} {out : β}

theorem bindOk {result : Except ε α} {next : α → Except ε β} (h : (result >>= next) = .ok out) :
    ∃ mid, result = .ok mid ∧ next mid = .ok out := by
  cases result with
  | error e' => cases h
  | ok mid => exact ⟨mid, rfl, h⟩

theorem bindError {result : Except ε α} {next : α → Except ε β} (h : (result >>= next) = .error e) :
    result = .error e ∨ ∃ mid, result = .ok mid ∧ next mid = .error e := by
  cases result with
  | error e' =>
    cases h
    exact .inl rfl
  | ok mid => exact .inr ⟨mid, rfl, h⟩

theorem mapOk {result : Except ε α} {f : α → β} (h : result.map f = .ok out) :
    ∃ mid, result = .ok mid ∧ out = f mid := by
  cases result with
  | error e' => cases h
  | ok mid =>
    cases h
    exact ⟨mid, rfl, rfl⟩

theorem mapError {result : Except ε α} {f : α → β} (h : result.map f = .error e) :
    result = .error e := by
  cases result with
  | error e' =>
    cases h
    rfl
  | ok mid => cases h

def FailsOnly (P : ε → Prop) (result : Except ε α) : Prop := ∀ e, result = .error e → P e

section FailsOnly
variable {P : ε → Prop}

theorem FailsOnly.ok (a : α) : FailsOnly P (.ok a) := fun _ h => by cases h

theorem FailsOnly.error (holds : P e) : FailsOnly P (.error e : Except ε α) := by
  intro e' h
  cases h
  exact holds

theorem FailsOnly.bind {result : Except ε α} {next : α → Except ε β} (first : FailsOnly P result)
    (rest : ∀ mid, FailsOnly P (next mid)) : FailsOnly P (result >>= next) := by
  intro e h
  rcases bindError h with failed | ⟨mid, _, later⟩
  · exact first e failed
  · exact rest mid e later

theorem FailsOnly.map {result : Except ε α} (f : α → β) (first : FailsOnly P result) :
    FailsOnly P (result.map f) := fun e h => first e (mapError h)

end FailsOnly

inductive Loop (σ ε : Type) where
  | running (s : σ)
  | stopped (e : ε)

inductive Iteration {σ : Type} (exec : σ → α → Except ε σ) : Loop σ ε → α → Loop σ ε → Prop where
  | goes {s a t} (ran : exec s a = .ok t) : Iteration exec (.running s) a (.running t)
  | fails {s a e} (ran : exec s a = .error e) : Iteration exec (.running s) a (.stopped e)

end Fallible
