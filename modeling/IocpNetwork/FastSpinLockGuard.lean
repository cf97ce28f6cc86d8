import IocpNetwork.FastSpinLock
import IocpNetwork.Lib.Sections

/-! FastSpinlockGuard of FastSpinLock.hpp, in its exclusive mode. A thread constructs the
guard, which is EnterWriteLock, runs the rest of the scope and destructs the guard, which is
LeaveWriteLock. The accesses of all threads, to mLockFlag and to what it guards, interleave
in any order. -/
namespace IocpNetwork.FastSpinlockGuard
open FastSpinLock (Pc access Exclusive Owning stepExclusive initialExclusive)
open Sections (Program View)
open Sections.View (Effect Explained explained explainedIdle)
open Runs (Run Move actions)

inductive Scope (Call R C : Type*) where
  | outside
  | constructing (call : Call)
  | body (call : Call) (c : C)
  | destructing (r : R)

structure State (T Call R C σ : Type*) where
  lock : FastSpinLock.State T
  memory : σ
  scope : T → Scope Call R C

section Steps
variable {T Call R C σ : Type*}

def initial (memory : σ) : State T Call R C σ := ⟨FastSpinLock.initial, memory, fun _ => .outside⟩

variable [DecidableEq T] (program : Program Call R C σ)

def State.advance (s : State T Call R C σ) (t : T) (next : Call) : State T Call R C σ :=
  match s.scope t with
  | .outside =>
      {s with
        lock := s.lock.advance t
        scope := Function.update s.scope t (.constructing next)}
  | .constructing call =>
      let lock := s.lock.advance t
      let entered := lock.pc t = .critical
      {s with
        lock := lock
        scope := Function.update s.scope t
          (if entered then .body call (program.enter call) else .constructing call)}
  | .body call c =>
      match program.access c s.memory with
      | (.inl c', memory) =>
          {s with memory := memory, scope := Function.update s.scope t (.body call c')}
      | (.inr r, memory) =>
          {s with memory := memory, scope := Function.update s.scope t (.destructing r)}
  | .destructing _ =>
      {s with
        lock := s.lock.advance t
        scope := Function.update s.scope t .outside}

def Step (s : State T Call R C σ) (a : T × Call) (s' : State T Call R C σ) : Prop :=
  s' = s.advance program a.1 a.2

def State.schedule (s : State T Call R C σ) (acts : List (T × Call)) :
    List (Move (State T Call R C σ) (T × Call)) :=
  Runs.trace (fun s a => s.advance program a.1 a.2) s acts

def State.scheduled (s : State T Call R C σ) (acts : List (T × Call)) : State T Call R C σ :=
  acts.foldl (fun s a => s.advance program a.1 a.2) s

theorem scheduleRun (s : State T Call R C σ) (acts : List (T × Call)) :
    Run (Step program) s (s.schedule program acts) (s.scheduled program acts) :=
  Runs.traceRun _ s acts

def Scope.inside : Scope Call R C → Option (Call × C)
  | .body call c => some (call, c)
  | .outside | .constructing _ | .destructing _ => none

def State.view (s : State T Call R C σ) : View T Call C σ := ⟨s.memory, fun t => (s.scope t).inside⟩

def returned (m : Move (State T Call R C σ) (T × Call)) : Option (T × Call × R) :=
  match m.before.scope m.action.1, m.after.scope m.action.1 with
  | .body call _, .destructing r => some (m.action.1, call, r)
  | _, _ => none

def Scope.Fits : Scope Call R C → Pc → Prop
  | .outside, pc => pc = .outside
  | .constructing _, pc => pc ≠ .outside ∧ pc ≠ .critical
  | .body _ _, pc | .destructing _, pc => pc = .critical

structure Guarded [Fintype T] (s : State T Call R C σ) : Prop where
  exclusive : Exclusive s.lock
  fits : ∀ t, (s.scope t).Fits (s.lock.pc t)

variable {program}

omit [DecidableEq T] in
theorem initialGuarded [Fintype T] (memory : σ) : Guarded (initial memory : State T Call R C σ) where
  exclusive := initialExclusive
  fits := fun _ => rfl

theorem constructorGoes (flag : BitVec 32) {pc : Pc} (enters : pc ≠ .critical) :
    (access flag pc).2 ≠ .outside := by
  cases pc with
  | outside => simp [access]
  | waitingWriter => simp only [access]; split <;> decide
  | adding => simp only [access]; split <;> decide
  | undoing => simp [access]
  | waitingReaders => simp only [access]; split <;> decide
  | critical => exact absurd rfl enters

theorem fitsUpdate {s : State T Call R C σ} {t : T} {scope : Scope Call R C}
    (fits : ∀ u, (s.scope u).Fits (s.lock.pc u)) {lock : FastSpinLock.State T}
    (others : ∀ u, u ≠ t → lock.pc u = s.lock.pc u) (here : scope.Fits (lock.pc t)) :
    ∀ u, (Function.update s.scope t scope u).Fits (lock.pc u) := by
  intro u
  by_cases same : u = t
  · subst same
    rw [Function.update_self]
    exact here
  · rw [Function.update_of_ne same, others u same]
    exact fits u

theorem advanceOthers (lock : FastSpinLock.State T) (t u : T) (other : u ≠ t) :
    (lock.advance t).pc u = lock.pc u := Function.update_of_ne other _ _

theorem advanceSelf (lock : FastSpinLock.State T) (t : T) :
    (lock.advance t).pc t = (access lock.mLockFlag (lock.pc t)).2 := Function.update_self _ _ _

variable [Fintype T]

theorem stepGuarded (few : Fintype.card T ≤ 2048) (s : State T Call R C σ) (a : T × Call)
    (s' : State T Call R C σ) (guarded : Guarded s) (h : Step program s a s') : Guarded s' := by
  obtain ⟨t, next⟩ := a
  cases h
  have locked := stepExclusive few s.lock t _ guarded.exclusive rfl
  have at_ := guarded.fits t
  unfold State.advance
  split
  · rename_i scope
    rw [scope] at at_
    refine ⟨locked, fitsUpdate guarded.fits (advanceOthers _ t) ?_⟩
    rw [advanceSelf, show s.lock.pc t = .outside from at_]
    exact ⟨by simp [access], by simp [access]⟩
  · rename_i call scope
    rw [scope] at at_
    refine ⟨locked, fitsUpdate guarded.fits (advanceOthers _ t) ?_⟩
    split
    · assumption
    · rename_i waiting
      refine ⟨?_, waiting⟩
      rw [advanceSelf]
      exact constructorGoes _ at_.2
  · rename_i call c scope
    rw [scope] at at_
    split
    · exact ⟨guarded.exclusive, fitsUpdate guarded.fits (fun _ _ => rfl) at_⟩
    · exact ⟨guarded.exclusive, fitsUpdate guarded.fits (fun _ _ => rfl) at_⟩
  · rename_i r scope
    rw [scope] at at_
    refine ⟨locked, fitsUpdate guarded.fits (advanceOthers _ t) ?_⟩
    rw [advanceSelf, show s.lock.pc t = .critical from at_]
    rfl

theorem Guarded.enteringAlone {s : State T Call R C σ} (guarded : Guarded s)
    (few : Fintype.card T ≤ 2048) {t : T} (enters : (s.lock.advance t).pc t = .critical)
    (before : s.lock.pc t ≠ .critical) (u : T) : (s.scope u).inside = none := by
  cases scope : s.scope u with
  | outside => rfl
  | constructing call => rfl
  | destructing r => rfl
  | body call c =>
    have at_ : s.lock.pc u = .critical := by
      have fits := guarded.fits u
      rwa [scope] at fits
    have other : u ≠ t := by
      rintro rfl
      exact before at_
    have exclusive := stepExclusive few s.lock t _ guarded.exclusive rfl
    have there : (s.lock.advance t).pc u = .critical := (advanceOthers _ t u other).trans at_
    have owning : ∀ pc, pc = Pc.critical → Owning pc := by
      rintro _ rfl
      exact trivial
    exact absurd (ThreadCount.countAtMostOne exclusive.oneOwner (owning _ there) (owning _ enters)) other

omit [Fintype T] in
theorem viewUpdate (s : State T Call R C σ) (t : T) (scope : Scope Call R C) :
    (fun u => (Function.update s.scope t scope u).inside) =
      Function.update (fun u => (s.scope u).inside) t scope.inside := by
  funext u
  by_cases same : u = t
  · subst same
    rw [Function.update_self, Function.update_self]
  · rw [Function.update_of_ne same, Function.update_of_ne same]

omit [Fintype T] in
theorem viewQuiet (s : State T Call R C σ) (t : T) (scope : Scope Call R C)
    (before : (s.scope t).inside = none) (after : scope.inside = none) :
    (fun u => (Function.update s.scope t scope u).inside) = fun u => (s.scope u).inside := by
  rw [viewUpdate, after, ← before, Function.update_eq_self]

theorem stepEffect (few : Fintype.card T ≤ 2048) (s : State T Call R C σ) (a : T × Call)
    (s' : State T Call R C σ) (guarded : Guarded s) (h : Step program s a s') :
    Effect program s.view (returned ⟨s, a, s'⟩) s'.view := by
  obtain ⟨t, next⟩ := a
  cases h
  cases scope : s.scope t with
  | outside =>
    have quiet := viewQuiet s t (.constructing next) (by rw [scope]; rfl) rfl
    simp only [State.advance, returned, State.view, scope, quiet]
    exact .quiet
  | constructing call =>
    have at_ := guarded.fits t
    rw [scope] at at_
    by_cases entered : (s.lock.advance t).pc t = .critical
    · have free := guarded.enteringAlone few entered at_.2
      simp only [State.advance, returned, State.view, scope, if_pos entered, viewUpdate]
      exact .enter t call free
    · have quiet := viewQuiet s t (.constructing call) (by rw [scope]; rfl) rfl
      simp only [State.advance, returned, State.view, scope, if_neg entered, quiet]
      exact .quiet
  | body call c =>
    have here : s.view.inside t = some (call, c) := by
      simp only [State.view, scope, Scope.inside]
    cases goes : program.access c s.memory with
    | mk next memory =>
      cases next with
      | inl c' =>
        simp only [State.advance, returned, State.view, scope, goes, viewUpdate, Function.update_self]
        exact .access t here goes
      | inr r =>
        simp only [State.advance, returned, State.view, scope, goes, viewUpdate, Function.update_self]
        exact .leave t here goes
  | destructing r =>
    have quiet := viewQuiet s t .outside (by rw [scope]; rfl) rfl
    simp only [State.advance, returned, State.view, scope, quiet]
    exact .quiet

/- The scopes are atomic: what is guarded is what the calls make of it that have left
their body, whole and one after the other, and then the one body that a thread is in. -/
theorem scopesAtomic (few : Fintype.card T ≤ 2048) (memory : σ) {moves} {u : State T Call R C σ}
    (run : Run (Step program) (initial memory) moves u) :
    ∃ calls m, Run program.Whole memory calls m ∧ actions calls = moves.filterMap returned ∧
      ((∀ t, (u.scope t).inside = none) → u.memory = m) ∧
      (∀ t call c, (u.scope t).inside = some (call, c) →
        program.Partly (program.enter call, m) (c, u.memory) ∧
        ∀ t', (u.scope t').inside ≠ none → t' = t) := by
  have start : Explained program memory [] (initial memory : State T Call R C σ).view memory :=
    explainedIdle (v := (initial memory : State T Call R C σ).view) fun _ => rfl
  obtain ⟨m, last⟩ := explained State.view returned (stepGuarded few) (stepEffect few) run
    (initialGuarded memory) start
  obtain ⟨⟨calls, whole, named⟩, oneInside, idle, partly⟩ := last
  refine ⟨calls, m, whole, named, idle, fun t call c inside => ⟨partly t call c inside, ?_⟩⟩
  intro t' busy
  exact oneInside t' t busy fun nobody => by cases nobody.symm.trans inside

end Steps

def increment : Program Unit Int (Option Int) Int where
  enter := fun _ => none
  access
    | none, n => (.inl (some (n + 1)), n)
    | some n, _ => (.inr n, n)

def contended : List (Fin 2 × Unit) := [0, 1, 0, 0, 1, 0, 0, 1, 0, 0, 1, 1, 1, 1, 1, 1].map fun t => (t, ())

theorem scopesAtomicIncrement : ∃ moves, ∃ u : State (Fin 2) Unit Int (Option Int) Int,
    Run (Step increment) (initial 5) moves u ∧ moves.filterMap returned = [(0, (), 6), (1, (), 7)] ∧
    ∃ calls, Run increment.Whole 5 calls u.memory ∧ actions calls = [((0 : Fin 2), (), 6), (1, (), 7)] := by
  have run := scheduleRun increment (initial 5) contended
  have named : (State.schedule increment (initial 5) contended).filterMap returned =
      [(0, (), 6), (1, (), 7)] := by decide
  obtain ⟨calls, m, whole, log, idle, _⟩ := scopesAtomic (by decide) 5 run
  have memory := idle (by decide)
  exact ⟨_, _, run, named, calls, memory ▸ whole, log.trans named⟩

end IocpNetwork.FastSpinlockGuard
