import IocpNetwork.PlayerBuffs
import IocpNetwork.PlayerManagerLock
import IocpNetwork.PlayerRegistry

/-! The wide events of PlayerWideEvent.hpp over whole runs of a game, calls one after the
other: DoBuffAllPlayers and CheckBuffTimeout, which go through the map of PlayerManager, and
the calls of Player that write to it. All of them share mLock, and the reader that a wide
event leaves there is the end of the writers. -/
namespace IocpNetwork.Game
open LockedGame (pushPlayers)
open MachineWords (signed signedExact)
open Player (BuffCall)

variable {g h : Game} {p : Nat} {player : Player}

def listed (g : Game) : List Nat := g.manager.mPlayerMap.toList.map Prod.snd

theorem pushPlayersList (entries : List (Int × Nat)) (total : Int) (outList : List Nat) :
    (pushPlayers entries total outList).2 = outList ++ entries.map Prod.snd := by
  induction entries generalizing total outList with
  | nil => exact (List.append_nil _).symm
  | cons iter later ih =>
    rw [pushPlayers, ih, List.append_assoc]
    rfl

theorem pushPlayersTotal (entries : List (Int × Nat)) {total : Int} (nonneg : 0 ≤ total)
    (fits : total + entries.length < 2 ^ 31) (outList : List Nat) :
    (pushPlayers entries total outList).1 = total + entries.length := by
  induction entries generalizing total outList with
  | nil => exact (Int.add_zero _).symm
  | cons iter later ih =>
    rw [List.length_cons] at fits ⊢
    have next : signed 32 (total + 1) = total + 1 := signedExact (w := 31) (by omega) (by omega)
    rw [pushPlayers, next, ih (by omega) (by omega)]
    omega

theorem idsDistinct (g : Game) : (g.manager.mPlayerMap.toList.map Prod.fst).Nodup := by
  rw [Std.TreeMap.map_fst_toList_eq_keys]
  exact Std.TreeMap.distinct_keys.imp fun different same => different (Std.compare_eq_iff_eq.mpr same)

theorem Registry.listedOnce (registry : g.Registry) : g.listed.Nodup := by
  have pairs : g.manager.mPlayerMap.toList.Nodup := List.Nodup.of_map _ (idsDistinct g)
  refine pairs.map_on ?_
  rintro ⟨id, p⟩ first ⟨id', p'⟩ second same
  obtain rfl : p = p' := same
  obtain ⟨player, known, _, rfl⟩ :=
    (registry.listed id p).mp (Std.TreeMap.mem_toList_iff_getElem?_eq_some.mp first)
  obtain ⟨player', known', _, rfl⟩ :=
    (registry.listed id' p).mp (Std.TreeMap.mem_toList_iff_getElem?_eq_some.mp second)
  rw [known] at known'
  cases known'
  rfl

theorem Registry.listedAlive (registry : g.Registry) (p : Nat) :
    p ∈ g.listed ↔ ∃ player, g.players p = some player ∧ player.mIsAlive = true := by
  constructor
  · intro mem
    obtain ⟨⟨id, q⟩, entry, rfl⟩ := List.mem_map.mp mem
    obtain ⟨player, known, alive, _⟩ :=
      (registry.listed id q).mp (Std.TreeMap.mem_toList_iff_getElem?_eq_some.mp entry)
    exact ⟨player, known, alive⟩
  · rintro ⟨player, known, alive⟩
    have entry := (registry.listed player.mPlayerId p).mpr ⟨player, known, alive, rfl⟩
    exact List.mem_map.mpr ⟨_, Std.TreeMap.mem_toList_iff_getElem?_eq_some.mpr entry, rfl⟩

/- The ids are numbers up to the counter, so that the total does not wrap. -/
theorem Registry.listedFew (registry : g.Registry) :
    (g.manager.mPlayerMap.toList.length : Int) ≤ g.manager.mCurrentIssueId := by
  have ids : g.manager.mPlayerMap.toList.map Prod.fst ⊆
      (List.range g.manager.mCurrentIssueId.toNat).map fun i : Nat => (i + 1 : Int) := by
    intro id mem
    obtain ⟨⟨_, p⟩, entry, rfl⟩ := List.mem_map.mp mem
    have issued := registry.issued _ p (Std.TreeMap.mem_toList_iff_getElem?_eq_some.mp entry)
    rename_i id
    exact List.mem_map.mpr ⟨(id - 1).toNat, List.mem_range.mpr (by omega), by omega⟩
  have fewer := ((idsDistinct g).subperm ids).length_le
  have counter := registry.counter
  rw [List.length_map, List.length_map, List.length_range] at fewer
  omega

theorem forPlayersEach (body : Player → Player) {currentPlayers : List Nat} (distinct : currentPlayers.Nodup)
    (mLock : BitVec 32) (p : Nat) :
    (LockedGame.forPlayers ⟨g, mLock⟩ currentPlayers body).game.players p =
      if p ∈ currentPlayers then (g.players p).map body else g.players p := by
  induction currentPlayers generalizing g with
  | nil => rfl
  | cons it later ih =>
    obtain ⟨once, distinct⟩ := List.nodup_cons.mp distinct
    have rest := ih (g := {g with players := Function.update g.players it ((g.players it).map body)}) distinct
    refine rest.trans ?_
    by_cases here : p = it
    · subst here
      rw [if_neg once, if_pos List.mem_cons_self]
      exact Function.update_self ..
    · simp only [Function.update_of_ne here, List.mem_cons, here, false_or]

theorem forPlayersManager (x : LockedGame) (currentPlayers : List Nat) (body : Player → Player) :
    (x.forPlayers currentPlayers body).game.manager = x.game.manager := by
  obtain ⟨g, mLock⟩ := x
  induction currentPlayers generalizing g with
  | nil => rfl
  | cons it later ih => exact ih {g with players := Function.update g.players it ((g.players it).map body)}

theorem Registry.called (registry : g.Registry) (c : BuffCall) (manager : h.manager = g.manager)
    (players : ∀ p, h.players p =
      (g.players p).map fun player => if player.mIsAlive then player.call c else player) : h.Registry := by
  have same : ∀ player : Player, (if player.mIsAlive then player.call c else player).mIsAlive = player.mIsAlive ∧
      (if player.mIsAlive then player.call c else player).mPlayerId = player.mPlayerId := by
    intro player
    split
    · cases c <;> exact ⟨rfl, rfl⟩
    · exact ⟨rfl, rfl⟩
  have alive : ∀ p id, h.AliveAs p id ↔ g.AliveAs p id := by
    intro p id
    unfold AliveAs
    rw [players]
    cases g.players p with
    | none => simp
    | some player => simp [same]
  refine ⟨fun id p => ?_, fun p player known dead => ?_, ?_, ?_⟩
  · rw [manager, alive]
    exact registry.listed id p
  · rw [players] at known
    obtain ⟨before, was, rfl⟩ := Option.map_eq_some_iff.mp known
    rw [(same before).1] at dead
    rw [(same before).2]
    exact registry.reset p before was dead
  · rw [manager]
    exact registry.issued
  · rw [manager]
    exact registry.counter

end Game

namespace LockedGame
open FastSpinLock (enterWriteLock guardedReturns lfReadMask lfWriteFlag)
open Player (BuffCall)
open Runs (Run Move actions actionsCons)

def playerReset (x : LockedGame) (p : Nat) (player : Player) : Option LockedGame := do
  let x ← x.unregisterPlayer player.mPlayerId
  some {x with game := x.game.setPlayer p {player with mPlayerId := -1, mHeartBeat := -1, mIsAlive := false}}

def construct (x : LockedGame) (p : Nat) (memory : Player) : Option LockedGame :=
  x.playerReset p {memory with mBuffList := ∅}

def start (x : LockedGame) (p : Nat) (player : Player) (heartbeat : Int) : Option LockedGame := do
  let player := {player with mIsAlive := true, mHeartBeat := heartbeat}
  let (id, x) ← x.registerPlayer p
  some {x with game := x.game.setPlayer p {player with mPlayerId := id}}

inductive WideAction where
  | player (a : Game.Action)
  | doBuffAllPlayers (event : AllPlayerBuffEvent) (fromPlayerId : Int)
  | checkBuffTimeout

/- A call that never returns has no successor. -/
inductive WideStep : LockedGame → WideAction → LockedGame → Prop where
  | construct {x y : LockedGame} (p : Nat) (memory : Player) (new : x.game.players p = none)
      (ran : x.construct p memory = some y) : WideStep x (.player (.construct p memory)) y
  | start {x y : LockedGame} (p : Nat) (player : Player) (heartbeat : Int)
      (known : x.game.players p = some player) (ran : x.start p player heartbeat = some y) :
      WideStep x (.player (.start p heartbeat)) y
  | playerReset {x y : LockedGame} (p : Nat) (player : Player) (known : x.game.players p = some player)
      (ran : x.playerReset p player = some y) : WideStep x (.player (.playerReset p)) y
  | doBuffAllPlayers {x y : LockedGame} (event : AllPlayerBuffEvent) (fromPlayerId : Int)
      (ran : x.doBuffAllPlayers event fromPlayerId = some y) : WideStep x (.doBuffAllPlayers event fromPlayerId) y
  | checkBuffTimeout {x y : LockedGame} (ran : x.checkBuffTimeout = some y) : WideStep x .checkBuffTimeout y

def WideAction.buffCall : WideAction → Option BuffCall
  | .player _ => none
  | .doBuffAllPlayers event fromPlayerId => some (.addBuff fromPlayerId event.mBuffId event.mDuration)
  | .checkBuffTimeout => some .decayTickBuff

def WideAction.Harmless (g : Game) : WideAction → Prop
  | .player a => g.Harmless a
  | .doBuffAllPlayers _ _ | .checkBuffTimeout => True

instance (g : Game) (a : WideAction) : Decidable (a.Harmless g) :=
  match a with
  | .player a => inferInstanceAs (Decidable (g.Harmless a))
  | .doBuffAllPlayers _ _ | .checkBuffTimeout => isTrue trivial

def WideAction.registers : WideAction → Bool
  | .player a => a.registers
  | .doBuffAllPlayers _ _ | .checkBuffTimeout => false

variable {x y : LockedGame} {a : WideAction} {p : Nat} {player : Player}

theorem unregisterPlayerReturns {playerId : Int} (ran : x.unregisterPlayer playerId = some y) :
    y = ⟨{x.game with manager := x.game.manager.unregisterPlayer playerId}, x.mLock⟩ ∧
      enterWriteLock x.mLock ≠ none := by
  obtain ⟨⟨manager, mLock⟩, guarded, last⟩ := Option.bind_eq_some_iff.mp ran
  obtain ⟨rfl, rfl, entered⟩ := guardedReturns guarded
  cases last
  exact ⟨rfl, entered⟩

theorem registerPlayerReturns {id : Int} (ran : x.registerPlayer p = some (id, y)) :
    id = (x.game.manager.registerPlayer p).1 ∧
      y = ⟨{x.game with manager := (x.game.manager.registerPlayer p).2}, x.mLock⟩ ∧
      enterWriteLock x.mLock ≠ none := by
  obtain ⟨⟨⟨_, manager⟩, mLock⟩, guarded, last⟩ := Option.bind_eq_some_iff.mp ran
  obtain ⟨same, rfl, entered⟩ := guardedReturns guarded
  cases last
  rw [← same]
  exact ⟨rfl, rfl, entered⟩

theorem playerStep {a : Game.Action} (step : WideStep x (.player a) y) :
    Game.Step x.game a y.game ∧ y.mLock = x.mLock ∧ enterWriteLock x.mLock ≠ none := by
  cases step with
  | construct p memory new ran =>
    obtain ⟨z, unregistered, last⟩ := Option.bind_eq_some_iff.mp ran
    obtain ⟨rfl, entered⟩ := unregisterPlayerReturns unregistered
    cases last
    exact ⟨.construct _ p memory new, rfl, entered⟩
  | start p player heartbeat known ran =>
    obtain ⟨⟨id, z⟩, registered, last⟩ := Option.bind_eq_some_iff.mp ran
    obtain ⟨rfl, rfl, entered⟩ := registerPlayerReturns registered
    cases last
    exact ⟨.start _ p player heartbeat known, rfl, entered⟩
  | playerReset p player known ran =>
    obtain ⟨z, unregistered, last⟩ := Option.bind_eq_some_iff.mp ran
    obtain ⟨rfl, entered⟩ := unregisterPlayerReturns unregistered
    cases last
    exact ⟨.playerReset _ p player known, rfl, entered⟩

theorem forListed (registry : x.game.Registry) (fits : x.game.manager.mCurrentIssueId < 2 ^ 31)
    (body : Player → Player) {total players} {z : LockedGame}
    (read : x.getCurrentPlayers [] = some (total, players, z))
    (last : (if total > 0 then some (z.forPlayers players body) else some z) = some y) :
    y.game.manager = x.game.manager ∧ ∀ p, y.game.players p =
      (x.game.players p).map fun player => if player.mIsAlive then body player else player := by
  obtain ⟨g, mLock⟩ := x
  obtain ⟨flag, locked, same⟩ := Option.bind_eq_some_iff.mp read
  have few : (g.manager.mPlayerMap.toList.length : Int) ≤ g.manager.mCurrentIssueId := registry.listedFew
  have fits : g.manager.mCurrentIssueId < 2 ^ 31 := fits
  have counted := Game.pushPlayersTotal g.manager.mPlayerMap.toList (Int.le_refl 0) (by omega) []
  have pushed := Game.pushPlayersList g.manager.mPlayerMap.toList 0 []
  cases same
  rw [counted] at last
  rw [pushed, List.nil_append] at last
  have alive : ∀ p player, g.players p = some player → (p ∈ g.listed ↔ player.mIsAlive = true) := by
    intro p player known
    rw [registry.listedAlive]
    exact ⟨fun ⟨_, known', alive⟩ => (by rw [known] at known'; cases known'; exact alive),
      fun alive => ⟨player, known, alive⟩⟩
  split at last
  · obtain rfl := Option.some.inj last
    refine ⟨Game.forPlayersManager _ _ _, fun p => ?_⟩
    rw [← Game.listed, Game.forPlayersEach body registry.listedOnce]
    cases known : g.players p with
    | none => simp
    | some player =>
      have here := alive p player known
      by_cases mem : p ∈ g.listed
      · simp [mem, here.mp mem]
      · have dead : ¬ player.mIsAlive = true := fun lives => mem (here.mpr lives)
        simp [mem, dead]
  · rename_i nobody
    cases last
    refine ⟨rfl, fun p => ?_⟩
    cases known : g.players p with
    | none => rfl
    | some player =>
      have empty : g.manager.mPlayerMap.toList = [] := List.eq_nil_of_length_eq_zero (by omega)
      have dead : ¬ player.mIsAlive = true := fun lives => by
        have mem := (alive p player known).mpr lives
        unfold Game.listed at mem
        rw [empty] at mem
        cases mem
      simp [dead]

theorem wideReaches (registry : x.game.Registry) (fits : x.game.manager.mCurrentIssueId < 2 ^ 31)
    (step : WideStep x a y) {c : BuffCall} (calls : a.buffCall = some c) :
    y.game.manager = x.game.manager ∧ ∀ p, y.game.players p =
      (x.game.players p).map fun player => if player.mIsAlive then player.call c else player := by
  cases step with
  | construct | start | playerReset => cases calls
  | doBuffAllPlayers event fromPlayerId ran =>
    cases calls
    obtain ⟨⟨total, players, z⟩, read, last⟩ := Option.bind_eq_some_iff.mp ran
    exact forListed registry fits _ read last
  | checkBuffTimeout ran =>
    cases calls
    obtain ⟨⟨total, players, z⟩, read, last⟩ := Option.bind_eq_some_iff.mp ran
    exact forListed registry fits _ read last

theorem wideRegistry {moves} (run : Run WideStep x moves y) (registry : x.game.Registry)
    (few : x.game.manager.mCurrentIssueId + (actions moves).countP WideAction.registers < 2 ^ 31)
    (harmless : ∀ m ∈ moves, m.action.Harmless m.before.game) :
    ∀ m ∈ moves, m.before.game.Registry ∧ m.before.game.manager.mCurrentIssueId < 2 ^ 31 ∧
      WideStep m.before m.action m.after := by
  induction run with
  | done => exact fun m mem => absurd mem List.not_mem_nil
  | @more x a y moves u first rest ih =>
    rw [actionsCons, List.countP_cons] at few
    have here : x.game.manager.mCurrentIssueId < 2 ^ 31 := by omega
    obtain ⟨calm, later⟩ := List.forall_mem_cons.mp harmless
    have next : y.game.Registry ∧ y.game.manager.mCurrentIssueId =
        x.game.manager.mCurrentIssueId + if a.registers then 1 else 0 := by
      cases a with
      | doBuffAllPlayers event fromPlayerId | checkBuffTimeout =>
        obtain ⟨manager, players⟩ := wideReaches registry here first rfl
        exact ⟨registry.called _ manager players, (congrArg _ manager).trans (Int.add_zero _).symm⟩
      | player a =>
        have step := (playerStep first).1
        have fits : x.game.Fits a := by
          cases a with
          | start p heartbeat =>
            have registers : (WideAction.player (.start p heartbeat)).registers = true := rfl
            rw [registers, if_pos rfl] at few
            show x.game.manager.mCurrentIssueId + 1 < 2 ^ 31
            omega
          | construct p memory | playerReset p => trivial
        rcases registry.step step fits with ⟨_, next, _⟩ | ⟨harmful, _⟩
        · exact ⟨next, Game.stepIssueId step registry.counter fits⟩
        · exact absurd calm harmful
    refine List.forall_mem_cons.mpr ⟨⟨registry, here, first⟩, ih next.1 ?_ later⟩
    rw [next.2]
    by_cases registers : a.registers = true
    · rw [if_pos registers] at few ⊢
      omega
    · rw [if_neg registers] at few ⊢
      omega

def Reached (m : Move LockedGame WideAction) : Prop := ∀ c, m.action.buffCall = some c →
  m.after.game.manager = m.before.game.manager ∧ ∀ p, m.after.game.players p =
    (m.before.game.players p).map fun player => if player.mIsAlive then player.call c else player

theorem runReached {moves} (run : Run WideStep ⟨.create, 0⟩ moves x)
    (few : (actions moves).countP WideAction.registers < 2 ^ 31 - 1)
    (harmless : ∀ m ∈ moves, m.action.Harmless m.before.game) : ∀ m ∈ moves, Reached m := by
  intro m mem c calls
  have bounded : Game.create.manager.mCurrentIssueId + (actions moves).countP WideAction.registers < 2 ^ 31 := by
    show (0 : Int) + _ < _
    omega
  obtain ⟨registry, fits, step⟩ := wideRegistry run Game.createRegistry bounded harmless m mem
  exact wideReaches registry fits step calls

/- Readers up to the bit of the writers. The one that reaches it keeps the rest out, too. -/
structure Readers (x : LockedGame) (k : Nat) : Prop where
  word : x.mLock = BitVec.ofNat 32 k
  most : k ≤ 2 ^ 20

theorem Readers.writerWaits {k : Nat} (readers : x.Readers k) (read : 0 < k) :
    enterWriteLock x.mLock = none := by
  rw [readers.word]
  rcases Nat.lt_or_eq_of_le readers.most with less | rfl
  · have field : (BitVec.ofNat 32 k + lfWriteFlag &&& lfReadMask).toNat = k := by
      have mask : lfReadMask.toNat = 2 ^ 20 - 1 := by decide
      have flag : lfWriteFlag.toNat = 2 ^ 20 := by decide
      rw [BitVec.toNat_and, BitVec.toNat_add, BitVec.toNat_ofNat, mask, flag, Nat.and_two_pow_sub_one_eq_mod]
      omega
    cases entered : enterWriteLock (BitVec.ofNat 32 k) with
    | none => rfl
    | some flag =>
      simp only [enterWriteLock] at entered
      split at entered
      · cases entered
      split at entered
      · split at entered
        · cases entered
        rename_i noReader
        have unread : (BitVec.ofNat 32 k + lfWriteFlag &&& lfReadMask).toNat = 0 :=
          congrArg BitVec.toNat (Decidable.not_not.mp noReader)
        omega
      · cases entered
  · rfl

theorem Readers.read {k : Nat} (readers : x.Readers k) {total players} {z : LockedGame}
    (read : x.getCurrentPlayers [] = some (total, players, z)) (added : y.mLock = x.mLock + 1) :
    y.Readers (k + 1) := by
  obtain ⟨flag, locked, _⟩ := Option.bind_eq_some_iff.mp read
  rw [readers.word] at locked
  rcases Nat.lt_or_eq_of_le readers.most with less | rfl
  · refine ⟨?_, less⟩
    rw [added, readers.word]
    exact (BitVec.ofNat_add k 1).symm
  · cases locked

theorem Readers.step {k : Nat} (readers : x.Readers k) (step : WideStep x a y) :
    (k = 0 ∧ a.buffCall = none ∧ y.Readers 0) ∨ (a.buffCall ≠ none ∧ y.Readers (k + 1)) := by
  cases a with
  | player a =>
    obtain ⟨_, lock, entered⟩ := playerStep step
    have unread : k = 0 := by
      by_contra read
      exact entered (readers.writerWaits (Nat.pos_of_ne_zero read))
    subst unread
    exact .inl ⟨rfl, rfl, lock.trans readers.word, readers.most⟩
  | doBuffAllPlayers event fromPlayerId =>
    cases step with
    | doBuffAllPlayers _ _ ran =>
      obtain ⟨⟨total, players, z⟩, read, last⟩ := Option.bind_eq_some_iff.mp ran
      exact .inr ⟨nofun, readers.read read (forPlayersReads read last)⟩
  | checkBuffTimeout =>
    cases step with
    | checkBuffTimeout ran =>
      obtain ⟨⟨total, players, z⟩, read, last⟩ := Option.bind_eq_some_iff.mp ran
      exact .inr ⟨nofun, readers.read read (forPlayersReads read last)⟩

def Held (x : LockedGame) : Prop := ∃ k, 0 < k ∧ x.Readers k

theorem Held.step (held : x.Held) (step : WideStep x a y) : a.buffCall ≠ none ∧ y.Held := by
  obtain ⟨k, read, readers⟩ := held
  rcases readers.step step with ⟨zero, _⟩ | ⟨calls, more⟩
  · omega
  · exact ⟨calls, k + 1, Nat.succ_pos k, more⟩

theorem Held.run {moves} (held : x.Held) (run : Run WideStep x moves y) :
    ∀ a ∈ actions moves, a.buffCall ≠ none := by
  induction run with
  | done => exact fun a mem => absurd mem List.not_mem_nil
  | more first _ ih =>
    obtain ⟨calls, held⟩ := held.step first
    exact List.forall_mem_cons.mpr ⟨calls, ih held⟩

section Lasting
variable {buffId heartBeat duration : Int} {k : Nat} {alone : Prop}

/- What `k` timeouts have left of a buff. `alone` says that it is not granted again. -/
structure Holds (alone : Prop) (buffId heartBeat duration : Int) (k : Nat) (player : Player) : Prop where
  alive : player.mIsAlive = true
  beats : player.mHeartBeat = heartBeat
  lasts : k * heartBeat < duration → player.mBuffList[buffId]? = some (duration - k * heartBeat)
  spent : duration ≤ k * heartBeat → alone → player.mBuffList[buffId]? = none

theorem Holds.granted (f id d : Int) (holds : Holds alone buffId heartBeat duration k player)
    (other : alone → id ≠ buffId) : Holds alone buffId heartBeat duration k (player.addBuff f id d) where
  alive := holds.alive
  beats := holds.beats
  lasts := fun covers => by
    have left := holds.lasts covers
    rw [Player.addLookup, if_neg, left]
    rintro ⟨rfl, none⟩
    rw [left] at none
    contradiction
  spent := fun past quiet => by
    rw [Player.addLookup, if_neg fun new => other quiet new.1]
    exact holds.spent past quiet

theorem Holds.decayed (holds : Holds alone buffId heartBeat duration k player)
    (beats : 0 < heartBeat ∧ heartBeat < 2 ^ 31) (size : duration < 2 ^ 31) :
    Holds alone buffId heartBeat duration (k + 1) player.decayTickBuff := by
  have next : ((k + 1 : Nat) : Int) * heartBeat = k * heartBeat + heartBeat := by
    rw [Nat.cast_succ, Int.add_mul, Int.one_mul]
  have nonneg : 0 ≤ k * heartBeat := Int.mul_nonneg (by omega) (by omega)
  have here : k * heartBeat < duration → player.decayTickBuff.mBuffList[buffId]? =
      if duration - k * heartBeat ≤ heartBeat then none else some (duration - k * heartBeat - heartBeat) := by
    intro covers
    rw [Player.decayLookup, holds.lasts covers, holds.beats, Option.bind_some,
      Player.decayedExact beats (by omega)]
  refine ⟨holds.alive, holds.beats, fun covers => ?_, fun past quiet => ?_⟩
  · rw [here (by omega), if_neg (by omega), next]
    congr 1
    omega
  · by_cases covers : k * heartBeat < duration
    · rw [here covers, if_pos (by omega)]
    · rw [Player.decayLookup, holds.spent (by omega) quiet]
      rfl

def WideAction.OtherBuff (buffId : Int) : WideAction → Prop
  | .doBuffAllPlayers event _ => event.mBuffId ≠ buffId
  | .player _ | .checkBuffTimeout => True

instance (buffId : Int) (a : WideAction) : Decidable (a.OtherBuff buffId) :=
  match a with
  | .doBuffAllPlayers event _ => inferInstanceAs (Decidable (event.mBuffId ≠ buffId))
  | .player _ | .checkBuffTimeout => isTrue trivial

def WideAction.timesOut : WideAction → Bool
  | .checkBuffTimeout => true
  | .player _ | .doBuffAllPlayers _ _ => false

theorem holdsRun {moves} (run : Run WideStep x moves y) (held : x.Held) (reached : ∀ m ∈ moves, Reached m)
    (others : alone → ∀ a ∈ actions moves, a.OtherBuff buffId) (beats : 0 < heartBeat ∧ heartBeat < 2 ^ 31)
    (size : duration < 2 ^ 31) (before : ∃ player, x.game.players p = some player ∧
      Holds alone buffId heartBeat duration k player) :
    y.game.manager = x.game.manager ∧ ∃ player, y.game.players p = some player ∧
      Holds alone buffId heartBeat duration (k + (actions moves).countP WideAction.timesOut) player := by
  induction run generalizing k with
  | done => exact ⟨rfl, before⟩
  | @more x a y moves u first _ ih =>
    obtain ⟨here, later⟩ := List.forall_mem_cons.mp reached
    obtain ⟨wide, held'⟩ := held.step first
    obtain ⟨player, known, holds⟩ := before
    have calls : ∀ c, a.buffCall = some c → y.game.manager = x.game.manager ∧
        y.game.players p = some (player.call c) := by
      intro c calls
      obtain ⟨manager, players⟩ := here c calls
      have players := players p
      rw [known, Option.map_some, if_pos holds.alive] at players
      exact ⟨manager, players⟩
    have next : y.game.manager = x.game.manager ∧ ∃ player, y.game.players p = some player ∧
        Holds alone buffId heartBeat duration (k + if a.timesOut then 1 else 0) player := by
      cases a with
      | player a => exact absurd rfl wide
      | doBuffAllPlayers event fromPlayerId =>
        obtain ⟨manager, players⟩ := calls _ rfl
        exact ⟨manager, _, players, holds.granted fromPlayerId event.mBuffId event.mDuration fun quiet =>
          (List.forall_mem_cons.mp (others quiet)).1⟩
      | checkBuffTimeout =>
        obtain ⟨manager, players⟩ := calls _ rfl
        exact ⟨manager, _, players, holds.decayed beats size⟩
    have last := ih held' later (fun quiet => (List.forall_mem_cons.mp (others quiet)).2) next.2
    rw [actionsCons, List.countP_cons]
    rw [next.1, Nat.add_assoc, Nat.add_comm (if a.timesOut then 1 else 0)] at last
    exact last

end Lasting

theorem wideEventsReach (moves : List (Move LockedGame WideAction)) (x : LockedGame)
    (run : Run WideStep ⟨.create, 0⟩ moves x)
    (few : (actions moves).countP WideAction.registers < 2 ^ 31 - 1)
    (harmless : ∀ m ∈ moves, m.action.Harmless m.before.game) : ∀ m ∈ moves, Reached m :=
  runReached run few harmless

def started : Game := (Game.create.construct 0 ⟨0, 0, false, ∅⟩).start 0 ⟨-1, -1, false, ∅⟩ 1000

def granted : Game := {started with
  players := Function.update started.players 0 (some ⟨1, 1000, true, (∅ : Std.TreeMap Int Int).insertIfNew 100 2500⟩)}

def starting : List (Move LockedGame WideAction) := [
  ⟨⟨.create, 0⟩, .player (.construct 0 ⟨0, 0, false, ∅⟩), ⟨Game.create.construct 0 ⟨0, 0, false, ∅⟩, 0⟩⟩,
  ⟨⟨Game.create.construct 0 ⟨0, 0, false, ∅⟩, 0⟩, .player (.start 0 1000), ⟨started, 0⟩⟩]

theorem startingRun : Run WideStep ⟨.create, 0⟩
    (starting ++ [⟨⟨started, 0⟩, .doBuffAllPlayers ⟨100, 2500⟩ 1, ⟨granted, 1⟩⟩]) ⟨granted, 1⟩ :=
  .more (.construct 0 _ rfl rfl) (.more (.start 0 _ 1000 rfl rfl) (.more (.doBuffAllPlayers _ _ rfl) (.done _)))

theorem wideEventsReachOne : ∃ moves x, Run WideStep ⟨.create, 0⟩ moves x ∧
    (actions moves).countP WideAction.registers = 1 ∧ ∀ m ∈ moves, Reached m :=
  ⟨_, _, startingRun, rfl, wideEventsReach _ _ startingRun (by decide) (by decide)⟩

end LockedGame
end IocpNetwork
