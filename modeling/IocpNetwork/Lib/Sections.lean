import IocpNetwork.Lib.Runs
import Mathlib.Logic.Relation
import Mathlib.Logic.Function.Basic

/-! Sections of code that only one thread at a time is inside of. A section makes single
accesses to a shared memory, with those of no other section between them, so that a run of
many threads is a run of whole calls in the order in which they leave. -/
namespace Sections
open Runs (Run Move actions)

variable {T Call R C σ : Type*}

/- The code of a section: where a call enters it, and the access made at each point, which
goes to another point or returns. -/
structure Program (Call R C σ : Type*) where
  enter : Call → C
  access : C → σ → (C ⊕ R) × σ

namespace Program
variable (program : Program Call R C σ)

def Next (a b : C × σ) : Prop := program.access a.1 a.2 = (.inl b.1, b.2)

def Partly : C × σ → C × σ → Prop := Relation.ReflTransGen program.Next

def Returns (call : Call) (s : σ) (r : R) (s' : σ) : Prop :=
  ∃ last, program.Partly (program.enter call, s) last ∧ program.access last.1 last.2 = (.inr r, s')

theorem partlyReturns {a b : C × σ} (h : program.Partly a b) {d : C × σ} {r r' : R} {s s' : σ}
    (left : program.access b.1 b.2 = (.inr r, s)) (other : program.Partly a d)
    (right : program.access d.1 d.2 = (.inr r', s')) : b = d := by
  induction h using Relation.ReflTransGen.head_induction_on with
  | refl =>
    cases other.cases_head with
    | inl same => exact same
    | inr more =>
      obtain ⟨e, next, _⟩ := more
      rw [Next, left] at next
      cases next
  | head first _ ih =>
    cases other.cases_head with
    | inl same =>
      subst same
      rw [Next, right] at first
      cases first
    | inr more =>
      obtain ⟨e, next, rest⟩ := more
      have same := first.symm.trans next
      rw [Prod.mk.injEq, Sum.inl.injEq] at same
      obtain ⟨point, memory⟩ := same
      exact ih (Prod.ext point memory ▸ rest)

theorem returnsFunctional {call : Call} {s : σ} {r r' : R} {s' s'' : σ}
    (h : program.Returns call s r s') (h' : program.Returns call s r' s'') : r = r' ∧ s' = s'' := by
  obtain ⟨last, partly, left⟩ := h
  obtain ⟨last', partly', right⟩ := h'
  obtain rfl := program.partlyReturns partly left partly' right
  have same := left.symm.trans right
  rw [Prod.mk.injEq, Sum.inr.injEq] at same
  exact same

def Whole (s : σ) (a : T × Call × R) (s' : σ) : Prop := program.Returns a.2.1 s a.2.2 s'

end Program

structure View (T Call C σ : Type*) where
  memory : σ
  inside : T → Option (Call × C)

namespace View
variable [DecidableEq T] (program : Program Call R C σ)

inductive Effect (v : View T Call C σ) : Option (T × Call × R) → View T Call C σ → Prop where
  | quiet : Effect v none v
  | enter (t : T) (call : Call) (free : ∀ u, v.inside u = none) :
      Effect v none {v with inside := Function.update v.inside t (some (call, program.enter call))}
  | access (t : T) {call : Call} {c c' : C} {memory : σ} (here : v.inside t = some (call, c))
      (goes : program.access c v.memory = (.inl c', memory)) :
      Effect v none ⟨memory, Function.update v.inside t (some (call, c'))⟩
  | leave (t : T) {call : Call} {c : C} {r : R} {memory : σ} (here : v.inside t = some (call, c))
      (goes : program.access c v.memory = (.inr r, memory)) :
      Effect v (some (t, call, r)) ⟨memory, Function.update v.inside t none⟩

/- The memory after the calls of `log`, and after the accesses that the section of the
thread inside has made since. -/
structure Explained (s : σ) (log : List (T × Call × R)) (v : View T Call C σ) (m : σ) : Prop where
  whole : ∃ calls, Run program.Whole s calls m ∧ actions calls = log
  oneInside : ∀ t u, v.inside t ≠ none → v.inside u ≠ none → t = u
  idle : (∀ t, v.inside t = none) → v.memory = m
  partly : ∀ t call c, v.inside t = some (call, c) →
    program.Partly (program.enter call, m) (c, v.memory)

variable {program} {s : σ} {log : List (T × Call × R)} {v : View T Call C σ} {m : σ}

omit [DecidableEq T] in
theorem Explained.others (h : Explained program s log v m) {t u : T} {a : Call × C}
    (here : v.inside t = some a) (other : u ≠ t) : v.inside u = none := by
  by_contra busy
  exact other (h.oneInside u t busy (by simp [here]))

theorem Explained.updated (h : Explained program s log v m) {t : T} {a b : Call × C}
    (here : v.inside t = some a) {u : T} {call : Call} {c : C}
    (busy : Function.update v.inside t (some b) u = some (call, c)) : u = t ∧ b = (call, c) := by
  by_cases same : u = t
  · subst same
    rw [Function.update_self] at busy
    exact ⟨rfl, Option.some.inj busy⟩
  · rw [Function.update_of_ne same, h.others here same] at busy
    cases busy

theorem Explained.entered (h : Explained program s log v m) (t : T) (call : Call)
    (free : ∀ u, v.inside u = none) : Explained program s log
      {v with inside := Function.update v.inside t (some (call, program.enter call))} m := by
  have only : ∀ u, Function.update v.inside t (some (call, program.enter call)) u ≠ none → u = t := by
    intro u busy
    by_contra other
    rw [Function.update_of_ne other, free u] at busy
    exact busy rfl
  refine ⟨h.whole, fun u w first second => (only u first).trans (only w second).symm, ?_, ?_⟩
  · exact fun nobody => absurd (nobody t) (by simp)
  · intro u call' c busy
    obtain rfl := only u fun nobody => by cases busy.symm.trans nobody
    have same := (Function.update_self u _ v.inside).symm.trans busy
    cases same
    have memory : v.memory = m := h.idle free
    rw [memory]
    exact .refl

theorem Explained.accessed (h : Explained program s log v m) {t : T} {call : Call} {c c' : C}
    {memory : σ} (here : v.inside t = some (call, c))
    (goes : program.access c v.memory = (.inl c', memory)) : Explained program s log
      ⟨memory, Function.update v.inside t (some (call, c'))⟩ m := by
  refine ⟨h.whole, ?_, ?_, ?_⟩
  · intro u w first second
    obtain ⟨a, first⟩ := Option.ne_none_iff_exists'.mp first
    obtain ⟨b, second⟩ := Option.ne_none_iff_exists'.mp second
    exact (h.updated here first).1.trans (h.updated here second).1.symm
  · exact fun nobody => absurd (nobody t) (by simp)
  · intro u call' d busy
    obtain ⟨rfl, same⟩ := h.updated here busy
    cases same
    exact (h.partly u call c here).tail goes

theorem Explained.left (h : Explained program s log v m) {t : T} {call : Call} {c : C} {r : R}
    {memory : σ} (here : v.inside t = some (call, c))
    (goes : program.access c v.memory = (.inr r, memory)) :
    Explained program s (log ++ [(t, call, r)]) ⟨memory, Function.update v.inside t none⟩ memory := by
  have nobody : ∀ u, Function.update v.inside t none u = none := by
    intro u
    by_cases same : u = t
    · rw [same, Function.update_self]
    · rw [Function.update_of_ne same, h.others here same]
  obtain ⟨calls, run, named⟩ := h.whole
  have last : program.Whole m (t, call, r) memory := ⟨_, h.partly t call c here, goes⟩
  refine ⟨⟨calls ++ [⟨m, (t, call, r), memory⟩], run.append (.more last (.done _)), ?_⟩, ?_, ?_, ?_⟩
  · rw [actions, List.map_append, ← actions, named]
    rfl
  · exact fun u w busy => absurd (nobody u) busy
  · exact fun _ => rfl
  · intro u call' c' busy
    cases (nobody u).symm.trans busy

theorem Explained.effect (h : Explained program s log v m) {done : Option (T × Call × R)}
    {v' : View T Call C σ} (effect : Effect program v done v') :
    ∃ m', Explained program s (log ++ done.toList) v' m' := by
  cases effect with
  | quiet => exact ⟨m, by simpa using h⟩
  | enter t call free => exact ⟨m, by simpa using h.entered t call free⟩
  | access t here goes => exact ⟨m, by simpa using h.accessed here goes⟩
  | leave t here goes => exact ⟨_, h.left here goes⟩

/- The atomicity rule: a system whose steps have these effects does, whatever its threads
interleave, the calls that have left, whole and in that order. -/
theorem explained {S α : Type*} {step : S → α → S → Prop} {I : S → Prop}
    (view : S → View T Call C σ) (done : Move S α → Option (T × Call × R))
    (keeps : ∀ s a t, I s → step s a t → I t)
    (effects : ∀ s a t, I s → step s a t → Effect program (view s) (done ⟨s, a, t⟩) (view t))
    {a moves u} (run : Run step a moves u) (start : I a) {log m}
    (before : Explained program s log (view a) m) :
    ∃ m', Explained program s (log ++ moves.filterMap done) (view u) m' := by
  induction run generalizing log m with
  | done => exact ⟨m, by simpa using before⟩
  | @more a act b moves u first _ ih =>
    obtain ⟨m', after⟩ := before.effect (effects _ _ _ start first)
    obtain ⟨m'', last⟩ := ih (keeps _ _ _ start first) after
    refine ⟨m'', ?_⟩
    have joined : (⟨a, act, b⟩ :: moves).filterMap done =
        (done ⟨a, act, b⟩).toList ++ moves.filterMap done := by
      cases named : done ⟨a, act, b⟩ <;> simp [named]
    rw [joined, ← List.append_assoc]
    exact last

omit [DecidableEq T] in
theorem explainedIdle (free : ∀ t, v.inside t = none) : Explained program v.memory [] v v.memory where
  whole := ⟨[], .done _, rfl⟩
  oneInside := fun t _ busy => absurd (free t) busy
  idle := fun _ => rfl
  partly := fun t call c busy => by
    rw [free t] at busy
    cases busy

end View
end Sections
