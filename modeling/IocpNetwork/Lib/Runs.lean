import Mathlib.Logic.Basic

/-! Finite runs of a labelled step relation. A run keeps every move it makes,
so that statements about all visited states, about all steps taken and about the
list of actions are statements about one list. -/
namespace Runs

variable {σ α τ : Type*} {step : σ → α → σ → Prop}

structure Move (σ α : Type*) where
  before : σ
  action : α
  after : σ

inductive Run (step : σ → α → σ → Prop) : σ → List (Move σ α) → σ → Prop where
  | done (s) : Run step s [] s
  | more {s a t moves u} (first : step s a t) (rest : Run step t moves u) :
      Run step s (⟨s, a, t⟩ :: moves) u

def Reachable (step : σ → α → σ → Prop) (s t : σ) : Prop := ∃ moves, Run step s moves t

def actions (moves : List (Move σ α)) : List α := moves.map Move.action

theorem actionsCons (m : Move σ α) (moves : List (Move σ α)) :
    actions (m :: moves) = m.action :: actions moves := rfl

theorem Run.append {s moves t moves' u} (h : Run step s moves t) (more : Run step t moves' u) :
    Run step s (moves ++ moves') u := by
  induction h with
  | done => exact more
  | more first _ ih => exact .more first (ih more)

theorem Run.split {s moves moves' u} (h : Run step s (moves ++ moves') u) :
    ∃ t, Run step s moves t ∧ Run step t moves' u := by
  induction moves generalizing s with
  | nil => exact ⟨s, .done s, h⟩
  | cons m later ih =>
    cases h with
    | more first rest =>
      obtain ⟨t, run, tail⟩ := ih rest
      exact ⟨t, .more first run, tail⟩

theorem Run.weaken {step' : σ → α → σ → Prop} (weaker : ∀ s a t, step s a t → step' s a t) {s moves u}
    (h : Run step s moves u) : Run step' s moves u := by
  induction h with
  | done s => exact .done s
  | more first _ ih => exact .more (weaker _ _ _ first) ih

theorem Run.restrictMoves {P : Move σ α → Prop} {s moves u} (h : Run step s moves u)
    (all : ∀ m ∈ moves, P m) : Run (fun s a t => step s a t ∧ P ⟨s, a, t⟩) s moves u := by
  induction h with
  | done s => exact .done s
  | more first _ ih =>
    have here := all _ List.mem_cons_self
    exact .more ⟨first, here⟩ (ih fun m mem => all m (List.mem_cons_of_mem _ mem))

theorem Run.restrict {P : α → Prop} {s moves u} (h : Run step s moves u)
    (all : ∀ a ∈ actions moves, P a) : Run (fun s a t => step s a t ∧ P a) s moves u :=
  h.restrictMoves (P := fun m => P m.action) fun _ mem => all _ (List.mem_map_of_mem mem)

inductive Padded (quiet : α → Prop) : List α → List α → Prop where
  | done : Padded quiet [] []
  | both (a) {xs ys} (rest : Padded quiet xs ys) : Padded quiet (a :: xs) (a :: ys)
  | added {a xs ys} (silent : quiet a) (rest : Padded quiet xs ys) : Padded quiet xs (a :: ys)

/- The stuttering rule: where every step is matched from a related state and a quiet
action can be taken without leaving the relation, the padded list can be run too. -/
theorem Run.padded {R : σ → σ → Prop} {quiet : α → Prop}
    (matched : ∀ s s' a t, R s s' → step s a t → ∃ t', step s' a t' ∧ R t t')
    (stays : ∀ s s' a, R s s' → quiet a → ∃ t', step s' a t' ∧ R s t')
    {s s' moves u acts} (h : Run step s moves u) (padded : Padded quiet (actions moves) acts)
    (related : R s s') : ∃ moves' u', Run step s' moves' u' ∧ actions moves' = acts ∧ R u u' := by
  generalize named : actions moves = base at padded
  induction padded generalizing s s' moves with
  | done =>
    obtain rfl := List.map_eq_nil_iff.mp named
    cases h
    exact ⟨[], s', .done s', rfl, related⟩
  | both a rest ih =>
    cases h with
    | done => contradiction
    | more first tail =>
      obtain ⟨rfl, later⟩ := List.cons.inj named
      obtain ⟨t', step', related'⟩ := matched _ _ _ _ related first
      obtain ⟨moves', u', run', same, last⟩ := ih tail related' later
      exact ⟨_, u', .more step' run', congrArg _ same, last⟩
  | added silent rest ih =>
    obtain ⟨t', step', related'⟩ := stays _ _ _ related silent
    obtain ⟨moves', u', run', same, last⟩ := ih h related' named
    exact ⟨_, u', .more step' run', congrArg _ same, last⟩

theorem Run.sameEnd (functional : ∀ s a t t', step s a t → step s a t' → t = t')
    {s moves u moves' u'} (h : Run step s moves u) (h' : Run step s moves' u')
    (same : actions moves = actions moves') : u = u' := by
  induction h generalizing moves' with
  | done =>
    obtain rfl := List.map_eq_nil_iff.mp same.symm
    cases h'
    rfl
  | more first _ ih =>
    cases h' with
    | done => contradiction
    | more first' rest' =>
      obtain ⟨rfl, later⟩ := List.cons.inj same
      obtain rfl := functional _ _ _ _ first first'
      exact ih rest' later

def trace (advance : σ → α → σ) (s : σ) : List α → List (Move σ α)
  | [] => []
  | a :: later => ⟨s, a, advance s a⟩ :: trace advance (advance s a) later

theorem traceRun (advance : σ → α → σ) (s : σ) (acts : List α) :
    Run (fun s a t => t = advance s a) s (trace advance s acts) (acts.foldl advance s) := by
  induction acts generalizing s with
  | nil => exact .done s
  | cons a later ih => exact .more rfl (ih _)

section Execute
variable {β γ ε : Type*} (allowed : σ → β → Prop) [∀ s b, Decidable (allowed s b)]
  (exec : σ → β → Except ε (γ × σ))

def execute (s : σ) : List β → Option (List (Move σ (β × γ)) × σ)
  | [] => some ([], s)
  | b :: later =>
      if allowed s b then
        match exec s b with
        | .error _ => none
        | .ok (out, t) => (execute t later).map fun (moves, u) => (⟨s, (b, out), t⟩ :: moves, u)
      else none

variable {allowed exec}

theorem executeRun {s : σ} {calls moves u} (h : execute allowed exec s calls = some (moves, u)) :
    Run (fun s a t => allowed s a.1 ∧ exec s a.1 = .ok (a.2, t)) s moves u ∧
    (actions moves).map Prod.fst = calls := by
  induction calls generalizing s moves with
  | nil =>
    cases h
    exact ⟨.done _, rfl⟩
  | cons b later ih =>
    unfold execute at h
    split at h <;> try contradiction
    rename_i enabled
    split at h <;> try contradiction
    rename_i out t ran
    obtain ⟨⟨rest, u'⟩, tail, same⟩ := Option.map_eq_some_iff.mp h
    cases same
    obtain ⟨run, calls⟩ := ih tail
    exact ⟨.more (a := (b, out)) ⟨enabled, ran⟩ run, congrArg (b :: ·) calls⟩

end Execute

section Invariant
variable {I : σ → Prop}

theorem Run.invariant (keeps : ∀ s a t, I s → step s a t → I t) {s moves u}
    (h : Run step s moves u) (start : I s) : I u := by
  induction h with
  | done => exact start
  | more first _ ih => exact ih (keeps _ _ _ start first)

theorem Reachable.invariant (keeps : ∀ s a t, I s → step s a t → I t) {s u}
    (h : Reachable step s u) (start : I s) : I u := by
  obtain ⟨_, run⟩ := h
  exact run.invariant keeps start

/- A function of the state that every step updates by `advance` is, at the end of
a run, the fold of `advance` over the moves. -/
theorem Run.fold (view : σ → τ) (advance : τ → Move σ α → τ)
    (keeps : ∀ s a t, I s → step s a t → I t)
    (simulates : ∀ s a t, I s → step s a t → view t = advance (view s) ⟨s, a, t⟩)
    {s moves u} (h : Run step s moves u) (start : I s) :
    view u = moves.foldl advance (view s) := by
  induction h with
  | done => rfl
  | more first _ ih =>
    rw [ih (keeps _ _ _ start first), List.foldl_cons, simulates _ _ _ start first]

/- The amortized rule: where no step costs more than its credit and what it takes from the
debt, no run costs more than its credits and the debt it started with. -/
theorem Run.amortized (Costs Credits : Move σ α → Prop) [DecidablePred Costs] [DecidablePred Credits]
    (debt : σ → Nat) (keeps : ∀ s a t, I s → step s a t → I t)
    (pays : ∀ s a t, I s → step s a t → (if Costs ⟨s, a, t⟩ then 1 else 0) + debt t ≤
      (if Credits ⟨s, a, t⟩ then 1 else 0) + debt s) {s moves u} (h : Run step s moves u) (start : I s) :
    moves.countP Costs ≤ moves.countP Credits + debt s := by
  induction h with
  | done => exact Nat.zero_le _
  | more first _ ih =>
    have later := ih (keeps _ _ _ start first)
    have here := pays _ _ _ start first
    rw [List.countP_cons, List.countP_cons]
    simp only [decide_eq_true_eq]
    omega

/- Where every step moves a stretch of items through `content` without losing one, so
does every run: what came out, then what is still inside, is what was inside at
first, then what went in. -/
theorem Run.conserves {β : Type*} (content : σ → List β) (taken given : Move σ α → List β)
    (keeps : ∀ s a t, I s → step s a t → I t)
    (balance : ∀ s a t, I s → step s a t →
      taken ⟨s, a, t⟩ ++ content t = content s ++ given ⟨s, a, t⟩)
    {s moves u} (h : Run step s moves u) (start : I s) :
    moves.flatMap taken ++ content u = content s ++ moves.flatMap given := by
  induction h with
  | done => simp
  | @more s a t moves u first _ ih =>
    have tail := ih (keeps _ _ _ start first)
    have here := balance _ _ _ start first
    calc (⟨s, a, t⟩ :: moves).flatMap taken ++ content u
        = taken ⟨s, a, t⟩ ++ (moves.flatMap taken ++ content u) := by
          rw [List.flatMap_cons, List.append_assoc]
      _ = (taken ⟨s, a, t⟩ ++ content t) ++ moves.flatMap given := by
          rw [tail, List.append_assoc]
      _ = content s ++ (⟨s, a, t⟩ :: moves).flatMap given := by
          rw [here, List.append_assoc, List.flatMap_cons]

/- Where a step from a good state is good exactly when it meets a condition on the
state before it, a run is good throughout exactly when all its steps meet it. -/
theorem Run.everyMoveIff (Good : Move σ α → Prop) (Meets : σ → α → Prop)
    (exactly : ∀ s a t, I s → step s a t → (Good ⟨s, a, t⟩ ↔ Meets s a))
    (keeps : ∀ s a t, I s → step s a t → Good ⟨s, a, t⟩ → I t)
    {s moves u} (h : Run step s moves u) (start : I s) :
    (∀ m ∈ moves, Good m) ↔ ∀ m ∈ moves, Meets m.before m.action := by
  induction h with
  | done => simp
  | more first _ ih =>
    have here := exactly _ _ _ start first
    simp only [List.forall_mem_cons]
    constructor
    · rintro ⟨good, later⟩
      exact ⟨here.mp good, (ih (keeps _ _ _ start first good)).mp later⟩
    · rintro ⟨meets, later⟩
      have good := here.mpr meets
      exact ⟨good, (ih (keeps _ _ _ start first good)).mpr later⟩

end Invariant

end Runs
