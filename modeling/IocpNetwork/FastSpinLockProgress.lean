import IocpNetwork.FastSpinLock
import IocpNetwork.Lib.FairRuns

/-! What EnterWriteLock guarantees about progress. A thread that takes its add back has lost
to another one that got in, and a lock that is asked for is entered again and again. -/
namespace IocpNetwork.FastSpinLock
open ThreadCount
open Runs (Run Move Reachable)
open FairRuns (FairRun Ranking)

variable {T : Type*}

def goes (added : Nat) : Pc → Pc
  | .outside => .waitingWriter
  | .waitingWriter => if added = 0 then .adding else .waitingWriter
  | .adding => if added = 0 then .waitingReaders else .undoing
  | .undoing => .waitingWriter
  | .waitingReaders => .critical
  | .critical => .outside

theorem readField (n : Nat) : word n &&& lfReadMask = 0 := by
  apply BitVec.eq_of_toNat_eq
  have mask : lfReadMask.toNat = 2 ^ 20 - 1 := by decide
  have low : 0x00100000 * n % 2 ^ 32 % 2 ^ 20 = 0 := by omega
  rw [BitVec.toNat_and, mask, Nat.and_two_pow_sub_one_eq_mod, word, BitVec.toNat_ofNat, low]
  rfl

section Counting
variable [Fintype T] [DecidableEq T] {s : State T} {t : T}

/- The field of the word is not seen to wrap: who reads it has not added to it. -/
theorem addedSmall (few : Fintype.card T ≤ 2048) (outside : ¬ Added (s.pc t)) : s.added < 2048 := by
  have entered := countUpdate (P := Added) (f := s.pc) t .critical
  have bounded : count Added (Function.update s.pc t .critical) ≤ Fintype.card T := countBounded
  rw [if_neg outside, if_pos (show Added .critical from trivial)] at entered
  unfold State.added
  omega

theorem accessGoes (few : Fintype.card T ≤ 2048) (exclusive : Exclusive s) (t : T) :
    (access s.mLockFlag (s.pc t)).2 = goes s.added (s.pc t) := by
  cases at_ : s.pc t with
  | outside | undoing | critical => rfl
  | waitingWriter =>
    have small := addedSmall (s := s) (t := t) few (by rw [at_]; exact id)
    have field := writeField s.added
    rw [Nat.mod_eq_of_lt small] at field
    simp only [access, goes, exclusive.flag]
    by_cases none : s.added = 0
    · have zero : word s.added &&& lfWriteMask = 0 := by
        apply BitVec.eq_of_toNat_eq
        rw [field, none]
        rfl
      rw [if_pos none, if_neg fun test => test zero]
    · have some : word s.added &&& lfWriteMask ≠ 0 := by
        intro zero
        have positive : 0 < (word s.added &&& lfWriteMask).toNat := by omega
        rw [zero] at positive
        exact absurd positive (by decide)
      rw [if_neg none, if_pos some]
  | adding =>
    have small := addedSmall (s := s) (t := t) few (by rw [at_]; exact id)
    rw [exclusive.flag, accessAdding, goes]
    by_cases none : s.added = 0
    · rw [if_pos none, if_pos (by omega)]
    · rw [if_neg none, if_neg (by omega)]
  | waitingReaders =>
    simp only [access, goes, exclusive.flag, readField]
    exact if_neg fun test => test rfl

theorem advanceGoes (few : Fintype.card T ≤ 2048) (exclusive : Exclusive s) (t : T) :
    (s.advance t).pc = Function.update s.pc t (goes s.added (s.pc t)) := by
  rw [← accessGoes few exclusive t]
  rfl

def Lost (t : T) (m : Move (State T) T) : Prop :=
  m.action = t ∧ m.before.pc t = .adding ∧ m.after.pc t = .undoing

def WonByOther (t : T) (m : Move (State T) T) : Prop :=
  m.action ≠ t ∧ m.before.pc m.action = .adding ∧ m.after.pc m.action = .waitingReaders

instance (t : T) : DecidablePred (Lost t) := fun _ => inferInstanceAs (Decidable (_ ∧ _))
instance (t : T) : DecidablePred (WonByOther t) := fun _ => inferInstanceAs (Decidable (_ ∧ _))

def doomed (t : T) (s : State T) : Nat := if s.pc t = .adding ∧ s.added ≠ 0 then 1 else 0

theorem stepAdded (few : Fintype.card T ≤ 2048) (exclusive : Exclusive s) (t : T) :
    (s.advance t).added + (if Added (s.pc t) then 1 else 0) =
      s.added + if Added (goes s.added (s.pc t)) then 1 else 0 := by
  rw [← accessGoes few exclusive t]
  exact advanceAdded s t

theorem doomedOther {t u : T} (other : u ≠ t) (few : Fintype.card T ≤ 2048) (exclusive : Exclusive s) :
    doomed t (s.advance u) ≤ (if WonByOther t ⟨s, u, s.advance u⟩ then 1 else 0) + doomed t s := by
  have moved := advanceGoes few exclusive u
  have counted := stepAdded few exclusive u
  have still : (s.advance u).pc t = s.pc t := by rw [moved, Function.update_of_ne (Ne.symm other)]
  unfold doomed
  rw [still]
  by_cases attempt : s.pc t = .adding ∧ s.added ≠ 0
  · rw [if_pos attempt]
    split <;> omega
  · by_cases doomed' : s.pc t = .adding ∧ (s.advance u).added ≠ 0
    · -- The counter left zero, which only the add of `u` does: `u` has won.
      have none : s.added = 0 := by
        by_contra some
        exact attempt ⟨doomed'.1, some⟩
      have adds : s.pc u = .adding := by
        have changed := doomed'.2
        rw [none] at counted
        cases at_ : s.pc u <;> simp only [at_, goes, Added, if_true, if_false] at counted
        case adding => rfl
        all_goals omega
      have won : WonByOther t ⟨s, u, s.advance u⟩ := by
        refine ⟨other, adds, ?_⟩
        show (s.advance u).pc u = .waitingReaders
        rw [moved, Function.update_self, adds, goes, if_pos none]
      rw [if_pos won, if_pos doomed']
      omega
    · rw [if_neg doomed']
      exact Nat.zero_le _

theorem doomedSelf (few : Fintype.card T ≤ 2048) (exclusive : Exclusive s) (t : T) :
    (if Lost t ⟨s, t, s.advance t⟩ then 1 else 0) + doomed t (s.advance t) ≤ doomed t s := by
  have moved := advanceGoes few exclusive t
  have counted := stepAdded few exclusive t
  have now : (s.advance t).pc t = goes s.added (s.pc t) := by rw [moved, Function.update_self]
  unfold doomed
  by_cases none : s.added = 0
  all_goals
    cases at_ : s.pc t <;> simp_all [Lost, goes, Added]

theorem stepPays (few : Fintype.card T ≤ 2048) (t : T) (s : State T) (u : T) (s' : State T)
    (exclusive : Exclusive s) (h : Step s u s') : (if Lost t ⟨s, u, s'⟩ then 1 else 0) + doomed t s' ≤
      (if WonByOther t ⟨s, u, s'⟩ then 1 else 0) + doomed t s := by
  cases h
  by_cases same : u = t
  · subst same
    have self := doomedSelf few exclusive u
    omega
  · have notLost : ¬ Lost t ⟨s, u, s.advance u⟩ := fun lost => same lost.1
    have other := doomedOther same few exclusive
    rw [if_neg notLost]
    omega

theorem lostToWinners (few : Fintype.card T ≤ 2048) (t : T) {s : State T}
    (reach : Reachable Step initial s) (calm : s.pc t ≠ .adding) {moves u} (run : Run Step s moves u) :
    moves.countP (Lost t) ≤ moves.countP (WonByOther t) := by
  have exclusive := reach.invariant (stepExclusive few) initialExclusive
  have amortized := run.amortized (Lost t) (WonByOther t) (doomed t) (stepExclusive few)
    (stepPays few t) exclusive
  have nothing : doomed t s = 0 := if_neg fun attempt => calm attempt.1
  omega

theorem lostToWinnersOnce : ∃ moves u, Run Step (initial : State (Fin 2)) moves u ∧
    moves.countP (Lost (1 : Fin 2)) = 1 ∧ 1 ≤ moves.countP (WonByOther (1 : Fin 2)) := by
  have run : Run Step (initial : State (Fin 2)) _ _ :=
    Runs.traceRun State.advance initial [0, 1, 0, 1, 0, 1, 1]
  have once : (Runs.trace State.advance (initial : State (Fin 2))
      [0, 1, 0, 1, 0, 1, 1]).countP (Lost (1 : Fin 2)) = 1 := by decide
  have paid := lostToWinners (by decide) 1 ⟨[], .done _⟩ (by decide) run
  rw [once] at paid
  exact ⟨_, _, run, once, paid⟩

def State.waitingCount (s : State T) : Nat := count (· = .waitingReaders) s.pc
def State.addingCount (s : State T) : Nat := count (· = .adding) s.pc

def approach : Pc → Nat
  | .outside => 2
  | .waitingWriter => 1
  | .adding | .undoing | .waitingReaders | .critical => 0

/- An owner is about to enter; or the lock is free and `t` is on its way; or those that
added have to take it back, and those that saw it free have to lose first. -/
def rank (t : T) (s : State T) : Nat :=
  if 0 < s.waitingCount then 0
  else if s.added = 0 then 1 + approach (s.pc t)
  else 3 + 2 * s.addingCount + s.added

def Helpful (t : T) (s : State T) (u : T) : Prop :=
  if 0 < s.waitingCount then s.pc u = .waitingReaders
  else if s.added = 0 then u = t
  else Added (s.pc u)

def Enters (s : State T) (u : T) : Prop := s.pc u ≠ .critical ∧ (s.advance u).pc u = .critical

theorem stepCount (few : Fintype.card T ≤ 2048) (exclusive : Exclusive s) (t : T) (pc : Pc) :
    count (· = pc) (s.advance t).pc + (if s.pc t = pc then 1 else 0) =
      count (· = pc) s.pc + if goes s.added (s.pc t) = pc then 1 else 0 := by
  rw [advanceGoes few exclusive t]
  exact countUpdate t _

omit [DecidableEq T] in
theorem rankWaiting (t : T) (some : 0 < s.waitingCount) : rank t s = 0 := if_pos some

omit [DecidableEq T] in
theorem rankFree (t : T) (nobody : s.waitingCount = 0) (free : s.added = 0) :
    rank t s = 1 + approach (s.pc t) := by
  unfold rank
  rw [if_neg (by omega), if_pos free]

omit [DecidableEq T] in
theorem rankBusy (t : T) (nobody : s.waitingCount = 0) (busy : s.added ≠ 0) :
    rank t s = 3 + 2 * s.addingCount + s.added := by
  unfold rank
  rw [if_neg (by omega), if_neg busy]

theorem approachBounded (pc : Pc) : approach pc ≤ 2 := by cases pc <;> decide

theorem busyLowers (few : Fintype.card T ≤ 2048) (exclusive : Exclusive s) (t : T) {u : T}
    (nobody : s.waitingCount = 0) (busy : s.added ≠ 0) (moves : Added (s.pc u) ∨ s.pc u = .adding) :
    rank t (s.advance u) < rank t s := by
  have waiting : (s.advance u).waitingCount + _ = s.waitingCount + _ := stepCount few exclusive u .waitingReaders
  have adding : (s.advance u).addingCount + _ = s.addingCount + _ := stepCount few exclusive u .adding
  have added := stepAdded few exclusive u
  have bounded := approachBounded ((s.advance u).pc t)
  rw [rankBusy t nobody busy]
  by_cases free : (s.advance u).added = 0
  all_goals
    cases at_ : s.pc u <;> simp [at_, goes, Added, busy] at waiting adding added moves
  case pos.waitingReaders | neg.waitingReaders => omega
  case pos.undoing | pos.critical =>
    rw [rankFree t (by omega) free]
    omega
  case pos.adding => omega
  all_goals
    rw [rankBusy t (by omega) free]
    omega

theorem freeMoves (few : Fintype.card T ≤ 2048) (exclusive : Exclusive s) (u : T)
    (free : s.added = 0) : (s.pc u = .outside ∧ (s.advance u).pc u = .waitingWriter) ∨
      (s.pc u = .waitingWriter ∧ (s.advance u).pc u = .adding) ∨
      (s.pc u = .adding ∧ (s.advance u).pc u = .waitingReaders) := by
  have moved : (s.advance u).pc u = goes s.added (s.pc u) := by
    rw [advanceGoes few exclusive u, Function.update_self]
  have notAdded : ¬ Added (s.pc u) := fun added => by
    have some : 0 < s.added := countPositive added
    omega
  rw [moved, free]
  cases at_ : s.pc u <;> simp_all [goes, Added]

theorem helpfulLowers (few : Fintype.card T ≤ 2048) (t : T) (s : State T) (u : T)
    (exclusive : Exclusive s) (helpful : Helpful t s u) :
    Enters s u ∨ rank t (s.advance u) < rank t s := by
  have moved : (s.advance u).pc u = goes s.added (s.pc u) := by
    rw [advanceGoes few exclusive u, Function.update_self]
  unfold Helpful at helpful
  split at helpful
  · refine .inl ⟨by rw [helpful]; decide, ?_⟩
    rw [moved, helpful]
    rfl
  · rename_i nobody
    have nobody : s.waitingCount = 0 := by omega
    split at helpful
    · rename_i free
      subst helpful
      have waiting : (s.advance u).waitingCount + _ = s.waitingCount + _ :=
        stepCount few exclusive u .waitingReaders
      have added := stepAdded few exclusive u
      rw [rankFree u nobody free]
      right
      rcases freeMoves few exclusive u free with ⟨at_, next⟩ | ⟨at_, next⟩ | ⟨at_, next⟩ <;>
        simp [at_, goes, Added, free] at waiting added
      · rw [rankFree u (by omega) (by omega), next, at_]
        decide
      · rw [rankFree u (by omega) (by omega), next, at_]
        decide
      · rw [rankWaiting u (by omega)]
        omega
    · rename_i busy
      exact .inr (busyLowers few exclusive t nobody busy (.inl helpful))

theorem helpfulWaits (few : Fintype.card T ≤ 2048) (t : T) (s : State T) (v u : T)
    (exclusive : Exclusive s) (helpful : Helpful t s v) (other : u ≠ v) :
    Enters s u ∨ rank t (s.advance u) < rank t s ∨
      (rank t (s.advance u) = rank t s ∧ Helpful t (s.advance u) v) := by
  have still : (s.advance u).pc v = s.pc v := by
    rw [advanceGoes few exclusive u, Function.update_of_ne (Ne.symm other)]
  have waiting : (s.advance u).waitingCount + _ = s.waitingCount + _ := stepCount few exclusive u .waitingReaders
  have adding : (s.advance u).addingCount + _ = s.addingCount + _ := stepCount few exclusive u .adding
  have added := stepAdded few exclusive u
  unfold Helpful at helpful
  split at helpful
  · rename_i some
    have some' : 0 < (s.advance u).waitingCount := countPositive (still.trans helpful)
    refine .inr (.inr ⟨by rw [rankWaiting t some', rankWaiting t some], ?_⟩)
    rw [Helpful, if_pos some', still]
    exact helpful
  · rename_i nobody
    have nobody : s.waitingCount = 0 := by omega
    split at helpful
    · rename_i free
      subst helpful
      rw [rankFree v nobody free]
      rcases freeMoves few exclusive u free with ⟨at_, _⟩ | ⟨at_, _⟩ | ⟨at_, _⟩ <;>
        simp [at_, goes, Added, free] at waiting added
      · refine .inr (.inr ⟨by rw [rankFree v (by omega) (by omega), still], ?_⟩)
        rw [Helpful, if_neg (by omega), if_pos (by omega)]
      · refine .inr (.inr ⟨by rw [rankFree v (by omega) (by omega), still], ?_⟩)
        rw [Helpful, if_neg (by omega), if_pos (by omega)]
      · right
        left
        rw [rankWaiting v (by omega)]
        omega
    · rename_i busy
      by_cases moves : Added (s.pc u) ∨ s.pc u = .adding
      · exact .inr (.inl (busyLowers few exclusive t nobody busy moves))
      · -- `u` comes to the first loop or stays in it.
        have same : (s.advance u).waitingCount = s.waitingCount ∧
            (s.advance u).addingCount = s.addingCount ∧ (s.advance u).added = s.added := by
          cases at_ : s.pc u <;> simp [at_, goes, Added, busy] at waiting adding added moves ⊢
          all_goals omega
        obtain ⟨waiting, adding, added⟩ := same
        refine .inr (.inr ⟨?_, ?_⟩)
        · rw [rankBusy t (by omega) (by omega), rankBusy t nobody busy, adding, added]
        · rw [Helpful, if_neg (by omega), if_neg (by omega), still]
          exact helpful

def ranking (few : Fintype.card T ≤ 2048) (t : T) :
    Ranking State.advance (Exclusive (T := T)) Enters where
  rank := rank t
  Helpful := Helpful t
  keeps := fun s u exclusive => stepExclusive few s u _ exclusive rfl
  helped := fun s _ => by
    unfold Helpful
    split
    · exact countSome (by assumption)
    · split
      · exact ⟨t, rfl⟩
      · rename_i busy
        exact countSome (Nat.pos_of_ne_zero busy)
  lowers := helpfulLowers few t
  waits := helpfulWaits few t

/- Where every thread keeps running, EnterWriteLock returns again and again: threads that
take their adds back do not keep each other out for ever. -/
theorem entersAgain (few : Fintype.card T ≤ 2048) (run : FairRun (State.advance : State T → T → State T))
    (start : run.states 0 = initial) (n : Nat) : ∃ m, n ≤ m ∧
      (run.states m).pc (run.mover m) ≠ .critical ∧ (run.states (m + 1)).pc (run.mover m) = .critical := by
  have first : Exclusive (run.states 0) := start ▸ initialExclusive
  obtain ⟨m, later, before, after⟩ := (ranking few (run.mover 0)).reaches run first n
  exact ⟨m, later, before, by rw [run.follows]; exact after⟩

end Counting

def turns : FairRun (State.advance : State Bool → Bool → State Bool) where
  states := fun n => (List.range n).foldl (fun s i => s.advance (i % 2 == 1)) initial
  mover := fun n => n % 2 == 1
  follows := fun n => by
    rw [List.range_succ, List.foldl_append]
    rfl
  fair := fun t n => by
    refine ⟨2 * n + t.toNat, by omega, ?_⟩
    cases t <;> simp

theorem entersAgainTurns : ∃ m, 1000 ≤ m ∧ (turns.states (m + 1)).pc (turns.mover m) = .critical := by
  obtain ⟨m, later, _, enters⟩ := entersAgain (by decide) turns rfl 1000
  exact ⟨m, later, enters⟩

end IocpNetwork.FastSpinLock
