import IocpNetwork.Lib.Runs
import Mathlib.Logic.ExistsUnique
import Mathlib.Logic.Function.Basic

/-! EnterLock and LeaveLock of FastSpinLock.hpp over the exchanges on mLockFlag. The
branch of EnterLock that has got the lock sleeps and goes on with the loop, and the loop
has no other exit. nloops says how long it sleeps and decides nothing. -/
namespace IocpNetwork.FastSpinLock.EnterLock
open Runs (Run Move actions)

/- Outside, before the exchange of EnterLock, in the branch behind it, past EnterLock. -/
inductive Pc where
  | outside
  | exchanging
  | sleeping
  | entered
  deriving DecidableEq, Repr

/- `owns` records whose exchange has returned 0 with no LeaveLock since. -/
structure State (T : Type*) where
  mLockFlag : BitVec 32
  pc : T → Pc
  owns : T → Bool

inductive Action (T : Type*) where
  | enterLock (t : T)
  | exchange (t : T) (returned : BitVec 32)
  | resume (t : T)
  | leaveLock (t : T)
  deriving DecidableEq, Repr

variable {T : Type*}

def initial : State T := ⟨0, fun _ => .outside, fun _ => false⟩

def loopBody (returned : BitVec 32) : Pc := if returned = 0 then .sleeping else .exchanging

def Pc.resume : Pc → Option Pc
  | .sleeping => some .exchanging
  | .outside | .exchanging | .entered => none

def State.goTo [DecidableEq T] (s : State T) (t : T) (pc : Pc) : State T :=
  {s with pc := Function.update s.pc t pc}

def State.exchange [DecidableEq T] (s : State T) (t : T) : State T where
  mLockFlag := 1
  pc := Function.update s.pc t (loopBody s.mLockFlag)
  owns := if s.mLockFlag = 0 then Function.update s.owns t true else s.owns

def State.leaveLock [DecidableEq T] (s : State T) (t : T) : State T where
  mLockFlag := 0
  pc := Function.update s.pc t .outside
  owns := Function.update s.owns t false

inductive Step [DecidableEq T] : State T → Action T → State T → Prop where
  | enterLock (s : State T) (t : T) (here : s.pc t = .outside) :
      Step s (.enterLock t) (s.goTo t .exchanging)
  | exchange (s : State T) (t : T) (here : s.pc t = .exchanging) :
      Step s (.exchange t s.mLockFlag) (s.exchange t)
  | resume (s : State T) (t : T) (next : Pc) (here : (s.pc t).resume = some next) :
      Step s (.resume t) (s.goTo t next)
  | leaveLock (s : State T) (t : T) (here : s.pc t = .entered) :
      Step s (.leaveLock t) (s.leaveLock t)

inductive Leaves : Pc → Prop where
  | entered : Leaves .entered
  | resume {pc next : Pc} (goes : pc.resume = some next) (later : Leaves next) : Leaves pc

structure Lawful (m : Move (State T) (Action T)) : Prop where
  won : ∀ t, m.action = .exchange t 0 → m.after.owns t = true ∧ Leaves (m.after.pc t)
  lost : ∀ t, m.action = .exchange t 1 → m.after.pc t = .exchanging
  flag : m.after.mLockFlag = 1 ↔ ∃! t, m.after.owns t = true
  exclusive : ∀ t u, m.after.pc t = .entered → m.after.pc u = .entered → t = u

def Exchanges : Action T → Prop
  | .exchange _ _ => True
  | .enterLock _ | .resume _ | .leaveLock _ => False

theorem notLeaves {pc : Pc} (loops : pc = .exchanging ∨ pc = .sleeping) : ¬ Leaves pc := by
  intro leaves
  induction leaves with
  | entered => simp at loops
  | resume goes later ih =>
    rcases loops with rfl | rfl
    · cases goes
    · cases goes
      exact ih (.inl rfl)

structure Held (s : State T) : Prop where
  owner : (s.mLockFlag = 0 ∧ ∀ t, s.owns t = false) ∨ (s.mLockFlag = 1 ∧ ∃! t, s.owns t = true)
  noneEntered : ∀ t, s.pc t ≠ .entered

theorem Held.flag {s : State T} (held : Held s) : s.mLockFlag = 1 ↔ ∃! t, s.owns t = true := by
  rcases held.owner with ⟨free, none⟩ | ⟨taken, one⟩
  · refine ⟨fun taken => ?_, fun ⟨t, owns, _⟩ => ?_⟩
    · rw [free] at taken
      contradiction
    · have owns : s.owns t = true := owns
      rw [none t] at owns
      contradiction
  · exact ⟨fun _ => one, fun _ => taken⟩

theorem initialHeld : Held (initial : State T) where
  owner := .inl ⟨rfl, fun _ => rfl⟩
  noneEntered := fun _ entered => by cases entered

variable [DecidableEq T]

theorem Held.goTo {s : State T} (held : Held s) {t : T} {pc : Pc} (stays : pc ≠ .entered) :
    Held (s.goTo t pc) where
  owner := held.owner
  noneEntered := fun u => by
    by_cases same : u = t
    · subst same
      simpa [State.goTo] using stays
    · simpa [State.goTo, same] using held.noneEntered u

theorem Held.exchange {s : State T} (held : Held s) (t : T) : Held (s.exchange t) where
  owner := by
    refine .inr ⟨rfl, ?_⟩
    rcases held.owner with ⟨free, none⟩ | ⟨taken, one⟩
    · refine ⟨t, by simp [State.exchange, free], fun u owns => ?_⟩
      by_contra other
      simp [State.exchange, free, other, none u] at owns
    · simpa [State.exchange, taken] using one
  noneEntered := fun u => by
    by_cases same : u = t
    · subst same
      simp only [State.exchange, loopBody, Function.update_self]
      split <;> exact nofun
    · simpa [State.exchange, same] using held.noneEntered u

theorem stepHeld (s : State T) (a : Action T) (s' : State T) (held : Held s) (h : Step s a s') :
    Held s' := by
  cases h with
  | enterLock t here => exact held.goTo nofun
  | exchange t here => exact held.exchange t
  | resume t next here =>
    refine held.goTo fun entered => ?_
    subst entered
    cases pc : s.pc t <;> simp [pc, Pc.resume] at here
  | leaveLock t here => exact absurd here (held.noneEntered t)

structure Untouched (s : State T) : Prop where
  held : Held s
  free : s.mLockFlag = 0

theorem Untouched.lawfulIff {s : State T} (untouched : Untouched s) {a : Action T} {s' : State T}
    (h : Step s a s') : Lawful ⟨s, a, s'⟩ ↔ ¬ Exchanges a := by
  have held := stepHeld s a s' untouched.held h
  cases h with
  | exchange t here =>
    refine ⟨fun lawful => ?_, fun quiet => absurd trivial quiet⟩
    have won := lawful.won t (congrArg (Action.exchange t) untouched.free)
    have loops : (s.exchange t).pc t = .sleeping := by
      simp [State.exchange, loopBody, untouched.free]
    exact absurd won.2 (notLeaves (.inr loops))
  | _ =>
    refine ⟨fun _ => id, fun _ => ⟨nofun, nofun, held.flag, fun t u entered => ?_⟩⟩
    exact absurd entered (held.noneEntered t)

theorem Untouched.kept {s : State T} (untouched : Untouched s) {a : Action T} {s' : State T}
    (h : Step s a s') (quiet : ¬ Exchanges a) : Untouched s' where
  held := stepHeld s a s' untouched.held h
  free := by
    cases h with
    | exchange => exact absurd trivial quiet
    | leaveLock => rfl
    | enterLock | resume => exact untouched.free

theorem lockOwnership (moves : List (Move (State T) (Action T))) (s : State T)
    (run : Run Step initial moves s) :
    ((∀ m ∈ moves, Lawful m) ↔ ∀ m ∈ moves, ¬ Exchanges m.action) ∧
    (s.mLockFlag = 1 ↔ ∃! t, s.owns t = true) ∧ (∀ t, s.pc t ≠ .entered) := by
  have held := run.invariant stepHeld initialHeld
  refine ⟨?_, held.flag, held.noneEntered⟩
  refine run.everyMoveIff (I := Untouched) Lawful (fun _ a => ¬ Exchanges a)
    (fun s a s' untouched h => untouched.lawfulIff h) (fun s a s' untouched h lawful => ?_)
    ⟨initialHeld, rfl⟩
  exact untouched.kept h ((untouched.lawfulIff h).mp lawful)

theorem lockOwnershipCalled : ∃ moves s, Run Step (initial : State (Fin 2)) moves s ∧
    actions moves = [.enterLock 0, .enterLock 1] ∧ ∀ m ∈ moves, Lawful m := by
  have run : ∃ moves s, Run Step (initial : State (Fin 2)) moves s ∧
      actions moves = [.enterLock 0, .enterLock 1] :=
    ⟨_, _, .more (.enterLock _ 0 rfl) (.more (.enterLock _ 1 rfl) (.done _)), rfl⟩
  obtain ⟨moves, s, run, calls⟩ := run
  refine ⟨moves, s, run, calls, (lockOwnership moves s run).1.mpr fun m mem exchanges => ?_⟩
  have taken : m.action ∈ actions moves := List.mem_map_of_mem mem
  rw [calls] at taken
  simp only [List.mem_cons, List.not_mem_nil, or_false] at taken
  rcases taken with h | h <;> rw [h] at exchanges <;> exact exchanges

theorem lockOwnerLoops : ∃ moves s, Run Step (initial : State (Fin 1)) moves s ∧
    actions moves = [.enterLock 0, .exchange 0 0, .resume 0, .exchange 0 1] ∧
    ¬ ∀ m ∈ moves, Lawful m := by
  refine ⟨_, _, .more (.enterLock _ 0 rfl) (.more (.exchange _ 0 rfl) (.more (.resume _ 0 _ rfl)
    (.more (.exchange _ 0 rfl) (.done _)))), rfl, fun lawful => ?_⟩
  have won := (lawful _ (List.mem_cons_of_mem _ List.mem_cons_self)).won 0 rfl
  exact notLeaves (.inr rfl) won.2

end IocpNetwork.FastSpinLock.EnterLock
