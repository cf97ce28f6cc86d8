import IocpNetwork.Player
import IocpNetwork.Lib.Runs
import Mathlib.Tactic.Common

/-! The map of PlayerManager over whole runs: it should list exactly the players that are
alive. The constructor unregisters whatever id its memory holds, and Start does not look
at the id that it overwrites. -/
namespace IocpNetwork.Game
open MachineWords (signed signedExact)
open Runs (Run Move actions)

inductive Action where
  | construct (p : Nat) (memory : Player)
  | start (p : Nat) (heartbeat : Int)
  | playerReset (p : Nat)

def Action.player : Action → Nat
  | .construct p _ | .start p _ | .playerReset p => p

def Action.registers : Action → Bool
  | .start _ _ => true
  | .construct _ _ | .playerReset _ => false

inductive Step : Game → Action → Game → Prop where
  | construct (g : Game) (p : Nat) (memory : Player) (new : g.players p = none) :
      Step g (.construct p memory) (g.construct p memory)
  | start (g : Game) (p : Nat) (player : Player) (heartbeat : Int) (known : g.players p = some player) :
      Step g (.start p heartbeat) (g.start p player heartbeat)
  | playerReset (g : Game) (p : Nat) (player : Player) (known : g.players p = some player) :
      Step g (.playerReset p) (g.playerReset p player)

def AliveAs (g : Game) (p : Nat) (id : Int) : Prop :=
  ∃ player, g.players p = some player ∧ player.mIsAlive = true ∧ player.mPlayerId = id

def Exact (g : Game) : Prop := ∀ (id : Int) (p : Nat), g.manager.mPlayerMap[id]? = some p ↔ g.AliveAs p id

def OthersKept (m : Move Game Action) : Prop := ∀ (id : Int) (p : Nat), p ≠ m.action.player →
  (m.after.manager.mPlayerMap[id]? = some p ↔ m.before.manager.mPlayerMap[id]? = some p)

def Harmless (g : Game) : Action → Prop
  | .construct _ memory => g.manager.mPlayerMap[memory.mPlayerId]? = none
  | .start p _ => ∀ player ∈ g.players p, player.mIsAlive = false
  | .playerReset _ => True
instance (g : Game) (a : Action) : Decidable (g.Harmless a) := by
  cases a <;> unfold Harmless <;> infer_instance

structure Registry (g : Game) : Prop where
  listed : g.Exact
  reset : ∀ p player, g.players p = some player → player.mIsAlive = false → player.mPlayerId = -1
  issued : ∀ (id : Int) (p : Nat), g.manager.mPlayerMap[id]? = some p → 1 ≤ id ∧ id ≤ g.manager.mCurrentIssueId
  counter : 0 ≤ g.manager.mCurrentIssueId

variable {g : Game} {p : Nat} {player : Player}

theorem createRegistry : create.Registry where
  listed := fun id p => by simp [create, PlayerManager.create, AliveAs]
  reset := fun _ _ known => by cases known
  issued := fun id p entry => by simp [create, PlayerManager.create] at entry
  counter := Int.le_refl 0

theorem eraseLookup (g : Game) (p : Nat) (player : Player) (id : Int) :
    (g.playerReset p player).manager.mPlayerMap[id]? =
      if player.mPlayerId = id then none else g.manager.mPlayerMap[id]? := by
  simp only [playerReset, setPlayer, PlayerManager.unregisterPlayer, Std.TreeMap.getElem?_erase,
    Std.compare_eq_iff_eq]

theorem resetAliveAs (g : Game) (p q : Nat) (player : Player) (id : Int) :
    (g.playerReset p player).AliveAs q id ↔ q ≠ p ∧ g.AliveAs q id := by
  by_cases same : q = p
  · subst same
    simp [AliveAs, playerReset, setPlayer]
  · simp [AliveAs, playerReset, setPlayer, same]

theorem Registry.cleared (registry : g.Registry) (mine : ∀ q, q ≠ p →
    g.manager.mPlayerMap[player.mPlayerId]? ≠ some q)
    (own : ∀ id, g.AliveAs p id → id = player.mPlayerId) : (g.playerReset p player).Registry where
  listed := fun id q => by
    rw [eraseLookup, resetAliveAs, ← registry.listed]
    by_cases here : player.mPlayerId = id
    · subst here
      simp only [if_true]
      exact ⟨fun none => (by cases none), fun ⟨other, entry⟩ => absurd entry (mine q other)⟩
    · rw [if_neg here]
      refine ⟨fun entry => ⟨fun same => ?_, entry⟩, fun both => both.2⟩
      subst same
      exact here (own id ((registry.listed id q).mp entry)).symm
  reset := fun q other known dead => by
    by_cases same : q = p
    · subst same
      simp only [playerReset, setPlayer, Function.update_self, Option.some.injEq] at known
      rw [← known]
    · simp only [playerReset, setPlayer, Function.update_of_ne same] at known
      exact registry.reset q other known dead
  issued := fun id q entry => by
    rw [eraseLookup] at entry
    split at entry <;> try contradiction
    exact registry.issued id q entry
  counter := registry.counter

theorem resetOthers (mine : ∀ q, q ≠ p → g.manager.mPlayerMap[player.mPlayerId]? ≠ some q)
    (id : Int) {q : Nat} (other : q ≠ p) :
    (g.playerReset p player).manager.mPlayerMap[id]? = some q ↔ g.manager.mPlayerMap[id]? = some q := by
  rw [eraseLookup]
  split
  · rename_i here
    subst here
    exact ⟨fun none => (by cases none), fun entry => absurd entry (mine q other)⟩
  · rfl

theorem Registry.fresh (registry : g.Registry) (id : Int) (next : g.manager.mCurrentIssueId < id) :
    g.manager.mPlayerMap[id]? = none := by
  cases entry : g.manager.mPlayerMap[id]? with
  | none => rfl
  | some q =>
    have issued := registry.issued id q entry
    omega

theorem Registry.unlisted (registry : g.Registry) : g.manager.mPlayerMap[(-1 : Int)]? = none := by
  cases entry : g.manager.mPlayerMap[(-1 : Int)]? with
  | none => rfl
  | some q =>
    have issued := registry.issued (-1) q entry
    omega

section Start
variable (exactly : signed 32 (g.manager.mCurrentIssueId + 1) = g.manager.mCurrentIssueId + 1)
include exactly

theorem startManager (p : Nat) (player : Player) (heartbeat : Int) :
    (g.start p player heartbeat).manager.mCurrentIssueId = g.manager.mCurrentIssueId + 1 ∧
    ∀ id : Int, (g.start p player heartbeat).manager.mPlayerMap[id]? =
      if g.manager.mCurrentIssueId + 1 = id then some p else g.manager.mPlayerMap[id]? := by
  refine ⟨exactly, fun id => ?_⟩
  simp only [start, setPlayer, PlayerManager.registerPlayer, exactly, Std.TreeMap.getElem?_insert,
    Std.compare_eq_iff_eq]

theorem startAliveAs (p q : Nat) (player : Player) (heartbeat id : Int) :
    (g.start p player heartbeat).AliveAs q id ↔
      (q = p ∧ g.manager.mCurrentIssueId + 1 = id) ∨ (q ≠ p ∧ g.AliveAs q id) := by
  by_cases same : q = p
  · subst same
    simp [AliveAs, start, setPlayer, PlayerManager.registerPlayer, exactly]
  · simp [AliveAs, start, setPlayer, PlayerManager.registerPlayer, same]

theorem Registry.started (registry : g.Registry) (dead : ∀ id, ¬ g.AliveAs p id) (player : Player)
    (heartbeat : Int) : (g.start p player heartbeat).Registry := by
  obtain ⟨counter, lookup⟩ := startManager exactly p player heartbeat
  have positive := registry.counter
  refine ⟨fun id q => ?_, fun q other known gone => ?_, fun id q entry => ?_, by omega⟩
  · rw [lookup, startAliveAs exactly, ← registry.listed]
    by_cases here : g.manager.mCurrentIssueId + 1 = id
    · have free := registry.fresh id (by omega)
      simp [here, free, eq_comm]
    · simp only [here, if_false, and_false, false_or]
      refine ⟨fun entry => ⟨fun same => ?_, entry⟩, fun both => both.2⟩
      subst same
      exact dead id ((registry.listed id q).mp entry)
  · by_cases same : q = p
    · subst same
      simp only [start, setPlayer, Function.update_self, Option.some.injEq] at known
      rw [← known] at gone
      contradiction
    · simp only [start, setPlayer, Function.update_of_ne same] at known
      exact registry.reset q other known gone
  · rw [lookup] at entry
    split at entry
    · omega
    · have issued := registry.issued id q entry
      omega

/- The old id of a player that is started again stays in the map. -/
theorem Registry.startedTwice (registry : g.Registry) (known : g.players p = some player)
    (alive : player.mIsAlive = true) (heartbeat : Int) : ¬ (g.start p player heartbeat).Exact := by
  intro listed
  obtain ⟨_, lookup⟩ := startManager exactly p player heartbeat
  have entry := (registry.listed player.mPlayerId p).mpr ⟨player, known, alive, rfl⟩
  have old := (registry.issued _ _ entry).2
  have stale : (g.start p player heartbeat).manager.mPlayerMap[player.mPlayerId]? = some p := by
    rw [lookup, if_neg (by omega), entry]
  rcases (startAliveAs exactly p p player heartbeat _).mp ((listed _ _).mp stale) with
    ⟨_, new⟩ | ⟨different, _⟩
  · omega
  · exact different rfl

theorem Registry.startedOthers (registry : g.Registry) (player : Player) (heartbeat id : Int) {q : Nat}
    (other : q ≠ p) : (g.start p player heartbeat).manager.mPlayerMap[id]? = some q ↔
      g.manager.mPlayerMap[id]? = some q := by
  obtain ⟨_, lookup⟩ := startManager exactly p player heartbeat
  rw [lookup]
  split
  · have free := registry.fresh id (by omega)
    simp [free, other.symm]
  · rfl

end Start

def Fits (g : Game) : Action → Prop
  | .start _ _ => g.manager.mCurrentIssueId + 1 < 2 ^ 31
  | .construct _ _ | .playerReset _ => True

theorem newNotAlive (new : g.players p = none) (id : Int) : ¬ g.AliveAs p id := by
  rintro ⟨_, known, _⟩
  rw [new] at known
  contradiction

theorem deadNotAlive (known : g.players p = some player) (dead : player.mIsAlive = false) (id : Int) :
    ¬ g.AliveAs p id := by
  rintro ⟨other, known', alive, _⟩
  rw [known] at known'
  cases known'
  rw [dead] at alive
  contradiction

/- The constructor resets an object that no one has registered. Where its memory holds a
registered id, the entry of that player is gone. -/
theorem Registry.constructed (registry : g.Registry) (new : g.players p = none) (memory : Player) :
    (g.Harmless (.construct p memory) ∧ (g.construct p memory).Registry ∧
      OthersKept ⟨g, .construct p memory, g.construct p memory⟩) ∨
    (¬ g.Harmless (.construct p memory) ∧ ¬ (g.construct p memory).Exact) := by
  cases entry : g.manager.mPlayerMap[memory.mPlayerId]? with
  | none =>
    have mine : ∀ q, q ≠ p → g.manager.mPlayerMap[memory.mPlayerId]? ≠ some q := by simp [entry]
    have next : (g.playerReset p {memory with mBuffList := ∅}).Registry :=
      registry.cleared mine fun id alive => absurd alive (newNotAlive new id)
    exact .inl ⟨entry, next, fun id q other => resetOthers mine id other⟩
  | some q =>
    refine .inr ⟨fun free => ?_, fun listed => ?_⟩
    · have free : g.manager.mPlayerMap[memory.mPlayerId]? = none := free
      rw [entry] at free
      contradiction
    · have alive := (registry.listed _ q).mp entry
      have other : q ≠ p := fun same => newNotAlive new _ (same ▸ alive)
      have kept := (listed _ q).mpr ((resetAliveAs g p q _ _).mpr ⟨other, alive⟩)
      rw [construct, eraseLookup, if_pos rfl] at kept
      contradiction

theorem Registry.ownEntry (registry : g.Registry) (known : g.players p = some player) (q : Nat)
    (other : q ≠ p) : g.manager.mPlayerMap[player.mPlayerId]? ≠ some q := by
  intro entry
  cases alive : player.mIsAlive with
  | false =>
    rw [registry.reset p player known alive, registry.unlisted] at entry
    contradiction
  | true =>
    have mine := (registry.listed _ p).mpr ⟨player, known, alive, rfl⟩
    rw [entry] at mine
    exact other (Option.some.inj mine)

theorem Registry.step {a : Action} {h : Game} (registry : g.Registry) (step : Step g a h)
    (fits : g.Fits a) : (g.Harmless a ∧ h.Registry ∧ OthersKept ⟨g, a, h⟩) ∨
      (¬ g.Harmless a ∧ ¬ h.Exact) := by
  cases step with
  | construct p memory new => exact registry.constructed new memory
  | start p player heartbeat known =>
    have positive := registry.counter
    have exactly : signed 32 (g.manager.mCurrentIssueId + 1) = g.manager.mCurrentIssueId + 1 :=
      signedExact (w := 31) (by omega) fits
    have only : g.Harmless (.start p heartbeat) ↔ player.mIsAlive = false := by
      simp [Harmless, known]
    rw [only]
    cases alive : player.mIsAlive with
    | false =>
      have next := registry.started exactly (deadNotAlive known alive) player heartbeat
      exact .inl ⟨rfl, next, fun id q other => registry.startedOthers exactly player heartbeat id other⟩
    | true => exact .inr ⟨nofun, registry.startedTwice exactly known alive heartbeat⟩
  | playerReset p player known =>
    have mine := registry.ownEntry known
    have own : ∀ id, g.AliveAs p id → id = player.mPlayerId := by
      rintro id ⟨other, known', _, rfl⟩
      rw [known] at known'
      cases known'
      rfl
    exact .inl ⟨trivial, registry.cleared mine own, fun id q other => resetOthers mine id other⟩

theorem stepIssueId {a : Action} {h : Game} (step : Step g a h) (counter : 0 ≤ g.manager.mCurrentIssueId)
    (fits : g.Fits a) : h.manager.mCurrentIssueId =
      g.manager.mCurrentIssueId + if a.registers then 1 else 0 := by
  cases step with
  | construct p memory => exact (Int.add_zero _).symm
  | start p player heartbeat => exact signedExact (w := 31) (by omega) fits
  | playerReset p player => exact (Int.add_zero _).symm

theorem runFits {h : Game} {moves} (run : Run Step g moves h) (counter : 0 ≤ g.manager.mCurrentIssueId)
    (few : g.manager.mCurrentIssueId + (actions moves).countP Action.registers < 2 ^ 31) :
    Run (fun g a h => Step g a h ∧ g.Fits a) g moves h := by
  induction run with
  | done => exact .done _
  | @more g a h moves _ first rest ih =>
    simp only [actions, List.map_cons, List.countP_cons] at few
    have fits : g.Fits a := by
      cases a with
      | start p heartbeat =>
        simp only [Action.registers, if_true] at few
        show g.manager.mCurrentIssueId + 1 < 2 ^ 31
        omega
      | _ => trivial
    have next := stepIssueId first counter fits
    refine .more ⟨first, fits⟩ (ih ?_ ?_)
    · rw [next]
      split <;> omega
    · rw [next]
      unfold actions
      split at few
      · rename_i registers
        rw [if_pos registers]
        omega
      · rename_i other
        rw [if_neg other]
        omega

theorem registryConsistent (moves : List (Move Game Action)) (g : Game) (run : Run Step create moves g)
    (few : (actions moves).countP Action.registers < 2 ^ 31 - 1) :
    (∀ m ∈ moves, m.after.Exact ∧ OthersKept m) ↔ ∀ m ∈ moves, m.before.Harmless m.action := by
  have bounded := runFits run (Int.le_refl 0) (by
    show (0 : Int) + _ < _
    omega)
  refine bounded.everyMoveIff (I := Registry) (fun m => m.after.Exact ∧ OthersKept m) Harmless ?_ ?_
    createRegistry
  · rintro g a h registry ⟨step, fits⟩
    rcases registry.step step fits with ⟨harmless, next, kept⟩ | ⟨harmful, wrong⟩
    · exact ⟨fun _ => harmless, fun _ => ⟨next.listed, kept⟩⟩
    · exact ⟨fun good => absurd good.1 wrong, fun harmless => absurd harmless harmful⟩
  · rintro g a h registry ⟨step, fits⟩ good
    rcases registry.step step fits with ⟨_, next, _⟩ | ⟨_, wrong⟩
    · exact next
    · exact absurd good.1 wrong

theorem registryConsistentTwo : ∃ moves g, Run Step create moves g ∧
    (actions moves).countP Action.registers = 3 ∧ ∀ m ∈ moves, m.after.Exact ∧ OthersKept m := by
  have run : ∃ moves g, Run Step create moves g ∧ (actions moves).countP Action.registers = 3 ∧
      ∀ m ∈ moves, m.before.Harmless m.action :=
    ⟨_, _, .more (.construct _ 0 ⟨0, 0, false, ∅⟩ rfl) (.more (.start _ 0 _ 1000 rfl)
      (.more (.construct _ 1 ⟨0, 0, false, ∅⟩ rfl) (.more (.start _ 1 _ 1000 rfl)
      (.more (.playerReset _ 0 _ rfl) (.more (.start _ 0 _ 1000 rfl) (.done _)))))), rfl, by decide⟩
  obtain ⟨moves, g, run, count, harmless⟩ := run
  exact ⟨moves, g, run, count, (registryConsistent moves g run (by omega)).mpr harmless⟩

theorem registryRecycledId : ¬ ∀ moves g, Run Step create moves g →
    (actions moves).countP Action.registers < 2 ^ 31 - 1 → g.Exact := by
  intro claimed
  have run : ∃ moves g, Run Step create moves g ∧ (actions moves).countP Action.registers = 1 ∧
      g.AliveAs 0 1 ∧ g.manager.mPlayerMap[(1 : Int)]? = none :=
    ⟨_, _, .more (.construct _ 0 ⟨0, 0, false, ∅⟩ rfl) (.more (.start _ 0 _ 1000 rfl)
      (.more (.construct _ 1 ⟨1, 0, false, ∅⟩ rfl) (.done _))), rfl, ⟨_, rfl, rfl, rfl⟩, by decide⟩
  obtain ⟨moves, g, run, count, alive, gone⟩ := run
  have entry := (claimed moves g run (by omega) 1 0).mpr alive
  rw [gone] at entry
  contradiction

end IocpNetwork.Game
