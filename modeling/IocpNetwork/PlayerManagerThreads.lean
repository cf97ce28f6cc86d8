import IocpNetwork.FastSpinLockGuard
import IocpNetwork.Player

/-! RegisterPlayer and UnregisterPlayer of PlayerManager.hpp called by many threads, with
every access to mCurrentIssueId a step of its own. An operation of the map is one step. -/
namespace IocpNetwork.PlayerManager
open MachineWords (signed signedExact)
open FastSpinlockGuard (State Step initial returned scheduleRun scopesAtomic)
open Sections (Program)
open Runs (Run Move actions actionsCons)

inductive Call where
  | registerPlayer (player : Nat)
  | unregisterPlayer (playerId : Int)
  deriving DecidableEq, Repr

/- The next access in the scope of the guard: `mPlayerMap[++mCurrentIssueId] = player` reads
and writes the counter, and takes its key from it; the return value is read again. -/
inductive Point where
  | readIssueId (player : Nat)
  | writeIssueId (player : Nat) (next : Int)
  | assign (player : Nat)
  | readResult
  | erase (playerId : Int)
  deriving DecidableEq, Repr

def program : Program Call (Option Int) Point PlayerManager where
  enter
    | .registerPlayer player => .readIssueId player
    | .unregisterPlayer playerId => .erase playerId
  access
    | .readIssueId player, m => (.inl (.writeIssueId player (signed 32 (m.mCurrentIssueId + 1))), m)
    | .writeIssueId player next, m => (.inl (.assign player), {m with mCurrentIssueId := next})
    | .assign player, m =>
        (.inl .readResult, {m with mPlayerMap := m.mPlayerMap.insert m.mCurrentIssueId player})
    | .readResult, m => (.inr (some m.mCurrentIssueId), m)
    | .erase playerId, m => (.inr none, {m with mPlayerMap := m.mPlayerMap.erase playerId})

def perform (m : PlayerManager) : Call → Option Int × PlayerManager
  | .registerPlayer player =>
      let (mCurrentIssueId, m) := m.registerPlayer player
      (some mCurrentIssueId, m)
  | .unregisterPlayer playerId => (none, m.unregisterPlayer playerId)

theorem programReturns (m : PlayerManager) (call : Call) :
    program.Returns call m (m.perform call).1 (m.perform call).2 := by
  cases call with
  | registerPlayer player =>
    have read : program.Next (.readIssueId player, m) (.writeIssueId player _, m) := rfl
    have written : program.Next (.writeIssueId player (signed 32 (m.mCurrentIssueId + 1)), m)
      (.assign player, _) := rfl
    have assigned : program.Next (.assign player, {m with mCurrentIssueId := signed 32 (m.mCurrentIssueId + 1)})
      (.readResult, _) := rfl
    exact ⟨_, ((Relation.ReflTransGen.single read).tail written).tail assigned, rfl⟩
  | unregisterPlayer playerId => exact ⟨_, .refl, rfl⟩

section Calls
variable {T : Type*}

theorem wholePerforms {m m' : PlayerManager} {a : T × Call × Option Int} (h : program.Whole m a m') :
    a.2.2 = (m.perform a.2.1).1 ∧ m' = (m.perform a.2.1).2 :=
  program.returnsFunctional h (programReturns m a.2.1)

def issued (log : List (T × Call × Option Int)) : List Int := log.filterMap fun a => a.2.2

def Touches (id : Int) : T × Call × Option Int → Prop
  | (_, .registerPlayer _, result) => result = some id
  | (_, .unregisterPlayer playerId, _) => playerId = id

def written : T × Call × Option Int → Option Nat
  | (_, .registerPlayer player, _) => some player
  | (_, .unregisterPlayer _, _) => none

instance (id : Int) : DecidablePred (Touches (T := T) id) := fun
  | (_, .registerPlayer _, result) => inferInstanceAs (Decidable (result = some id))
  | (_, .unregisterPlayer playerId, _) => inferInstanceAs (Decidable (playerId = id))

theorem issuedSome (t : T) (call : Call) (id : Int) (log : List (T × Call × Option Int)) :
    issued ((t, call, some id) :: log) = id :: issued log := rfl

theorem wholeIssues {m : PlayerManager} {calls} {m' : PlayerManager}
    (run : Run (program.Whole (T := T)) m calls m') {n : Nat} (current : m.mCurrentIssueId = n)
    (bounded : n + (issued (actions calls)).length < 2 ^ 31) :
    issued (actions calls) = (List.range' (n + 1) (issued (actions calls)).length).map Int.ofNat := by
  induction run generalizing n with
  | done => rfl
  | @more m a after calls m' first _ ih =>
    obtain ⟨result, rfl⟩ := wholePerforms first
    obtain ⟨t, call, r⟩ := a
    cases call with
    | registerPlayer player =>
      obtain rfl : r = some (signed 32 (m.mCurrentIssueId + 1)) := result
      rw [actionsCons, issuedSome, List.length_cons] at bounded ⊢
      have next : signed 32 (m.mCurrentIssueId + 1) = (n + 1 : Nat) := by
        rw [current]
        exact signedExact (by omega) (by omega)
      rw [List.range'_succ, List.map_cons, ← ih (n := n + 1) next (by omega), next]
      rfl
    | unregisterPlayer playerId =>
      obtain rfl : r = none := result
      exact ih (n := n) current bounded

theorem wholeMaps {m : PlayerManager} {calls} {m' : PlayerManager}
    (run : Run (program.Whole (T := T)) m calls m') (id : Int) : m'.mPlayerMap[id]? =
      (actions calls).foldl (fun known a => if Touches id a then written a else known) m.mPlayerMap[id]? := by
  induction run with
  | done => rfl
  | @more m a after calls m' first _ ih =>
    obtain ⟨result, rfl⟩ := wholePerforms first
    obtain ⟨t, call, r⟩ := a
    rw [ih, actionsCons, List.foldl_cons]
    congr 1
    cases call with
    | registerPlayer player =>
      obtain rfl : r = some (signed 32 (m.mCurrentIssueId + 1)) := result
      simp only [perform, registerPlayer, Std.TreeMap.getElem?_insert, Std.compare_eq_iff_eq, Touches,
        written, Option.some.injEq]
    | unregisterPlayer playerId =>
      simp only [perform, unregisterPlayer, Std.TreeMap.getElem?_erase, Std.compare_eq_iff_eq, Touches,
        written]
      rfl

theorem lastWritten (id : Int) (log : List (T × Call × Option Int)) (known : Option Nat) (player : Nat) :
    log.foldl (fun known a => if Touches id a then written a else known) known = some player ↔
      (known = some player ∧ ∀ a ∈ log, ¬ Touches id a) ∨
      ∃ before t after, log = before ++ (t, .registerPlayer player, some id) :: after ∧
        ∀ a ∈ after, ¬ Touches id a := by
  induction log generalizing known with
  | nil => simp
  | cons a later ih =>
    rw [List.foldl_cons, ih]
    constructor
    · rintro (⟨here, untouched⟩ | ⟨before, t, after, rfl, untouched⟩)
      · split at here
        · rename_i touches
          obtain ⟨t, call, r⟩ := a
          cases call with
          | registerPlayer other =>
            obtain rfl : r = some id := touches
            obtain rfl : other = player := Option.some.inj here
            exact .inr ⟨[], t, later, rfl, untouched⟩
          | unregisterPlayer playerId => cases here
        · rename_i quiet
          exact .inl ⟨here, List.forall_mem_cons.mpr ⟨quiet, untouched⟩⟩
      · exact .inr ⟨a :: before, t, after, rfl, untouched⟩
    · rintro (⟨rfl, untouched⟩ | ⟨before, t, after, same, untouched⟩)
      · obtain ⟨quiet, rest⟩ := List.forall_mem_cons.mp untouched
        exact .inl ⟨if_neg quiet, rest⟩
      · cases before with
        | nil =>
          obtain ⟨rfl, rfl⟩ := List.cons.inj same
          exact .inl ⟨if_pos rfl, untouched⟩
        | cons b before =>
          obtain ⟨rfl, rfl⟩ := List.cons.inj same
          exact .inr ⟨before, t, after, rfl, untouched⟩

theorem onlyUnregister {log : List (T × Call × Option Int)} (distinct : (issued log).Nodup)
    {before after} {t : T} {player : Nat} {id : Int}
    (split : log = before ++ (t, .registerPlayer player, some id) :: after) {a}
    (mem : a ∈ after) (touches : Touches id a) : a.2.1 = .unregisterPlayer id := by
  obtain ⟨t', call, r⟩ := a
  cases call with
  | registerPlayer other =>
    obtain rfl : r = some id := touches
    have again : id ∈ issued after := List.mem_filterMap.mpr ⟨_, mem, rfl⟩
    have parts : issued log = issued before ++ id :: issued after := by
      rw [split, issued, List.filterMap_append, List.filterMap_cons]
      rfl
    rw [parts, List.nodup_append] at distinct
    exact absurd again (List.nodup_cons.mp distinct.2.1).1
  | unregisterPlayer playerId =>
    obtain rfl : playerId = id := touches
    rfl

end Calls

section Threads
variable {T : Type*} [DecidableEq T] [Fintype T]

/- Whatever up to 2048 threads interleave, RegisterPlayer returns 1, 2, 3 and so on in the
order in which its calls leave the scope, and between scopes the map lists exactly the
players that were registered and not unregistered since. -/
theorem registrationsAtomic (few : Fintype.card T ≤ 2048) {moves}
    {u : State T Call (Option Int) Point PlayerManager}
    (run : Run (Step program) (initial create) moves u)
    (bounded : (issued (moves.filterMap returned)).length < 2 ^ 31) :
    issued (moves.filterMap returned) =
      (List.range' 1 (issued (moves.filterMap returned)).length).map Int.ofNat ∧
    ((∀ t, (u.scope t).inside = none) → ∀ (id : Int) (player : Nat),
      u.memory.mPlayerMap[id]? = some player ↔
        ∃ before t after, moves.filterMap returned =
          before ++ (t, .registerPlayer player, some id) :: after ∧
          ∀ a ∈ after, a.2.1 ≠ .unregisterPlayer id) := by
  obtain ⟨calls, m, whole, named, idle, _⟩ := scopesAtomic few create run
  rw [← named] at bounded ⊢
  have ids := wholeIssues whole (n := 0) rfl (by omega)
  rw [Nat.zero_add] at ids
  refine ⟨ids, fun nobody id player => ?_⟩
  have distinct : (issued (actions calls)).Nodup := by
    rw [ids]
    exact List.Nodup.map Int.ofNat_injective List.nodup_range'
  have empty : create.mPlayerMap[id]? = none := Std.TreeMap.getElem?_emptyc
  rw [idle nobody, wholeMaps whole id, empty, lastWritten]
  constructor
  · rintro (⟨none, _⟩ | ⟨before, t, after, split, untouched⟩)
    · cases none
    · refine ⟨before, t, after, split, fun a mem unregisters => untouched a mem ?_⟩
      obtain ⟨t', call, r⟩ := a
      obtain rfl : call = _ := unregisters
      rfl
  · rintro ⟨before, t, after, split, kept⟩
    exact .inr ⟨before, t, after, split, fun a mem touches =>
      kept a mem (onlyUnregister distinct split mem touches)⟩

end Threads

def contended : List (Bool × Call) :=
  [false, true, false, false, false, false, true, false, true, false, false, false,
    true, true, true, true, true, true, true, true].map fun t =>
      (t, .registerPlayer (bif t then 8 else 7))

theorem registrationsAtomicContended : ∃ moves, ∃ u : State Bool Call (Option Int) Point PlayerManager,
    Run (Step program) (initial create) moves u ∧ issued (moves.filterMap returned) = [1, 2] ∧
    u.memory.mPlayerMap[(1 : Int)]? = some 7 ∧ u.memory.mPlayerMap[(2 : Int)]? = some 8 := by
  have run := scheduleRun program (initial create) contended
  have named : (State.schedule program (initial create) contended).filterMap returned =
      [(false, .registerPlayer 7, some 1), (true, .registerPlayer 8, some 2)] := by decide
  obtain ⟨ids, listed⟩ := registrationsAtomic (by decide) run (by rw [named]; decide)
  have lists := listed (by decide)
  rw [named] at ids lists
  refine ⟨_, _, run, by rw [named]; exact ids, ?_, ?_⟩
  · exact (lists 1 7).mpr ⟨[], false, [(true, .registerPlayer 8, some 2)], rfl, by decide⟩
  · exact (lists 2 8).mpr ⟨[(false, .registerPlayer 7, some 1)], true, [], rfl, by decide⟩

end IocpNetwork.PlayerManager
