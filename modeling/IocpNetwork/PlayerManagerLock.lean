import IocpNetwork.FastSpinLock
import IocpNetwork.Player

/-! The lock of PlayerManager over sequences of calls. EnterReadLock and LeaveReadLock of
FastSpinLock.hpp are still to be written; they are taken to add 1 to the reader bits, once
no writer is there, and to subtract it. -/
namespace IocpNetwork.FastSpinLock
open Runs (Reachable)

/- The calls of a thread while no other thread changes the flag: `none` where a loop has to
wait, which it then does for ever. -/
def enterWriteLock (mLockFlag : BitVec 32) : Option (BitVec 32) :=
  if mLockFlag &&& lfWriteMask ≠ 0 then none
  else
    let mLockFlag := interlockedAdd mLockFlag lfWriteFlag
    if mLockFlag &&& lfWriteMask = lfWriteFlag then
      if mLockFlag &&& lfReadMask ≠ 0 then none else some mLockFlag
    else none

def leaveWriteLock (mLockFlag : BitVec 32) : BitVec 32 := interlockedAdd mLockFlag (-lfWriteFlag)

def enterReadLock (mLockFlag : BitVec 32) : Option (BitVec 32) :=
  if mLockFlag &&& lfWriteMask ≠ 0 then none else some (mLockFlag + 1)

def leaveReadLock (mLockFlag : BitVec 32) : BitVec 32 := mLockFlag - 1

def fastSpinlockGuard {α : Type} (mExclusiveMode : Bool) (mLockFlag : BitVec 32) (body : α) :
    Option (α × BitVec 32) := do
  let entered ← if mExclusiveMode then enterWriteLock mLockFlag else enterReadLock mLockFlag
  some (body, if mExclusiveMode then leaveWriteLock entered else leaveReadLock entered)

def Alone (found : BitVec 32) (s : State Unit) : Prop :=
  match s.pc () with
  | .outside | .waitingWriter => s.mLockFlag = found
  | .adding => s.mLockFlag = found ∧ found &&& lfWriteMask = 0
  | .undoing => s.mLockFlag = interlockedAdd found lfWriteFlag
  | .waitingReaders => s.mLockFlag = interlockedAdd found lfWriteFlag ∧ found &&& lfWriteMask = 0 ∧
      s.mLockFlag &&& lfWriteMask = lfWriteFlag
  | .critical => enterWriteLock found = some s.mLockFlag

def Entering (s : State Unit) (t : Unit) (s' : State Unit) : Prop := Step s t s' ∧ s.pc t ≠ .critical

theorem addBack (n : BitVec 32) : interlockedAdd (interlockedAdd n lfWriteFlag) (-lfWriteFlag) = n := by
  have cancel : lfWriteFlag + -lfWriteFlag = 0#32 := by decide
  rw [interlockedAdd, interlockedAdd, BitVec.add_assoc, cancel, BitVec.add_zero]

theorem enteringAlone (found : BitVec 32) (s : State Unit) (t : Unit) (s' : State Unit)
    (alone : Alone found s) (h : Entering s t s') : Alone found s' := by
  obtain ⟨rfl, before⟩ := h
  unfold Alone at alone
  cases pc : s.pc () with
  | outside =>
    simp only [pc] at alone
    simp [Alone, State.advance, pc, access, alone]
  | waitingWriter =>
    simp only [pc] at alone
    by_cases writer : found &&& lfWriteMask = 0#32
    · simp [Alone, State.advance, pc, access, alone, writer]
    · simp [Alone, State.advance, pc, access, alone, writer]
  | adding =>
    simp only [pc] at alone
    by_cases won : interlockedAdd found lfWriteFlag &&& lfWriteMask = lfWriteFlag
    · simp [Alone, State.advance, pc, access, alone, won]
    · simp [Alone, State.advance, pc, access, alone, won]
  | undoing =>
    simp only [pc] at alone
    simp [Alone, State.advance, pc, access, alone, addBack]
  | waitingReaders =>
    simp only [pc] at alone
    obtain ⟨flag, writer, won⟩ := alone
    rw [flag] at won
    by_cases reader : interlockedAdd found lfWriteFlag &&& lfReadMask = 0#32
    · simp [Alone, State.advance, pc, access, flag, reader, enterWriteLock, writer, won]
    · simp [Alone, State.advance, pc, access, flag, reader, writer, won]
  | critical => exact absurd pc before

theorem entering {flag flag' : BitVec 32} {pc pc' : Pc} (goes : access flag pc = (flag', pc'))
    (before : pc ≠ .critical) : Entering ⟨flag, fun _ => pc⟩ () ⟨flag', fun _ => pc'⟩ := by
  refine ⟨?_, before⟩
  simp only [Step, State.advance, goes]
  congr 1

theorem enterWriteLockAlone (found flag : BitVec 32) : enterWriteLock found = some flag ↔
    ∃ s : State Unit, Reachable Entering ⟨found, fun _ => .outside⟩ s ∧ s.pc () = .critical ∧
      s.mLockFlag = flag := by
  constructor
  · intro entered
    simp only [enterWriteLock] at entered
    split at entered
    · cases entered
    rename_i writer
    split at entered
    · rename_i won
      split at entered
      · cases entered
      rename_i reader
      obtain rfl := Option.some.inj entered
      have first : Entering ⟨found, fun _ => .outside⟩ () ⟨found, fun _ => .waitingWriter⟩ :=
        entering rfl (by decide)
      have second : Entering ⟨found, fun _ => .waitingWriter⟩ () ⟨found, fun _ => .adding⟩ :=
        entering (by simp only [access, if_neg writer]) (by decide)
      have third : Entering ⟨found, fun _ => .adding⟩ ()
          ⟨interlockedAdd found lfWriteFlag, fun _ => .waitingReaders⟩ :=
        entering (by simp only [access, if_pos won]) (by decide)
      have last : Entering ⟨interlockedAdd found lfWriteFlag, fun _ => .waitingReaders⟩ ()
          ⟨interlockedAdd found lfWriteFlag, fun _ => .critical⟩ :=
        entering (by simp only [access, if_neg reader]) (by decide)
      exact ⟨_, ⟨_, .more first (.more second (.more third (.more last (.done _))))⟩, rfl, rfl⟩
    · cases entered
  · rintro ⟨s, reach, entered, rfl⟩
    have alone := reach.invariant (enteringAlone found) rfl
    simp only [Alone, entered] at alone
    exact alone

theorem enterReadLockAdds {found flag : BitVec 32} (entered : enterReadLock found = some flag) :
    found &&& lfWriteMask = 0 ∧ flag = found + 1 := by
  unfold enterReadLock at entered
  split at entered
  · cases entered
  · rename_i free
    exact ⟨Decidable.not_not.mp free, (Option.some.inj entered).symm⟩

theorem readReleases {found flag : BitVec 32} (entered : enterReadLock found = some flag) :
    leaveReadLock flag = found := by
  obtain ⟨_, rfl⟩ := enterReadLockAdds entered
  exact BitVec.add_sub_cancel found 1

theorem writeReleases {found flag : BitVec 32} (entered : enterWriteLock found = some flag) :
    leaveWriteLock flag = found := by
  simp only [enterWriteLock] at entered
  split at entered
  · cases entered
  split at entered
  · split at entered
    · cases entered
    · rw [← Option.some.inj entered, leaveWriteLock, addBack]
  · cases entered

theorem guardedReturns {α : Type} {flag flag' : BitVec 32} {body out : α}
    (h : fastSpinlockGuard true flag body = some (out, flag')) :
    out = body ∧ flag' = flag ∧ enterWriteLock flag ≠ none := by
  obtain ⟨entered, locked, last⟩ := Option.bind_eq_some_iff.mp h
  have locked : enterWriteLock flag = some entered := locked
  cases Option.some.inj last
  exact ⟨rfl, writeReleases locked, by rw [locked]; nofun⟩

end IocpNetwork.FastSpinLock

namespace IocpNetwork
open FastSpinLock (enterWriteLock enterReadLock enterReadLockAdds fastSpinlockGuard guardedReturns
  readReleases lfWriteFlag)
open MachineWords (signed)
open Runs (Run Move actions)

structure LockedGame where
  game : Game
  mLock : BitVec 32

structure AllPlayerBuffEvent where
  mBuffId : Int
  mDuration : Int
  deriving DecidableEq, Repr

namespace LockedGame

def registerPlayer (x : LockedGame) (player : Nat) : Option (Int × LockedGame) := do
  let ((mCurrentIssueId, manager), mLock) ←
    fastSpinlockGuard true x.mLock (x.game.manager.registerPlayer player)
  some (mCurrentIssueId, ⟨{x.game with manager := manager}, mLock⟩)

def unregisterPlayer (x : LockedGame) (playerId : Int) : Option LockedGame := do
  let (manager, mLock) ← fastSpinlockGuard true x.mLock (x.game.manager.unregisterPlayer playerId)
  some ⟨{x.game with manager := manager}, mLock⟩

def pushPlayers : List (Int × Nat) → Int → List Nat → Int × List Nat
  | [], total, outList => (total, outList)
  | iter :: later, total, outList => pushPlayers later (signed 32 (total + 1)) (outList ++ [iter.2])

/- There is no LeaveReadLock. -/
def getCurrentPlayers (x : LockedGame) (outList : List Nat) : Option (Int × List Nat × LockedGame) := do
  let mLock ← enterReadLock x.mLock
  let (total, outList) := pushPlayers x.game.manager.mPlayerMap.toList 0 outList
  some (total, outList, {x with mLock := mLock})

def forPlayers (x : LockedGame) (currentPlayers : List Nat) (body : Player → Player) : LockedGame :=
  {x with game := currentPlayers.foldl (fun game it =>
    {game with players := Function.update game.players it ((game.players it).map body)}) x.game}

def doBuffAllPlayers (x : LockedGame) (event : AllPlayerBuffEvent) (fromPlayerId : Int) :
    Option LockedGame := do
  let (total, currentPlayers, x) ← x.getCurrentPlayers []
  if total > 0 then
    some (x.forPlayers currentPlayers fun it => it.addBuff fromPlayerId event.mBuffId event.mDuration)
  else some x

def checkBuffTimeout (x : LockedGame) : Option LockedGame := do
  let (total, currentPlayers, x) ← x.getCurrentPlayers []
  if total > 0 then some (x.forPlayers currentPlayers Player.decayTickBuff) else some x

inductive Call where
  | registerPlayer (player : Nat)
  | unregisterPlayer (playerId : Int)
  | getCurrentPlayers (outList : List Nat)
  | doBuffAllPlayers (event : AllPlayerBuffEvent) (fromPlayerId : Int)
  | checkBuffTimeout
  deriving DecidableEq, Repr

/- `none` for a call that never returns. -/
def exec (x : LockedGame) : Call → Option LockedGame
  | .registerPlayer player => (x.registerPlayer player).map Prod.snd
  | .unregisterPlayer playerId => x.unregisterPlayer playerId
  | .getCurrentPlayers outList => (x.getCurrentPlayers outList).map fun (_, _, y) => y
  | .doBuffAllPlayers event fromPlayerId => x.doBuffAllPlayers event fromPlayerId
  | .checkBuffTimeout => x.checkBuffTimeout

def Step (x : LockedGame) (c : Call) (y : LockedGame) : Prop := x.exec c = some y

def Released (m : Move LockedGame Call) : Prop := m.before.mLock = 0 → m.after.mLock = 0

def Reads : Call → Prop
  | .getCurrentPlayers _ | .doBuffAllPlayers _ _ | .checkBuffTimeout => True
  | .registerPlayer _ | .unregisterPlayer _ => False
instance (c : Call) : Decidable (Reads c) :=
  match c with
  | .getCurrentPlayers _ | .doBuffAllPlayers _ _ | .checkBuffTimeout => isTrue trivial
  | .registerPlayer _ | .unregisterPlayer _ => isFalse id

theorem guardReleases {α : Type} {mExclusiveMode : Bool} {flag flag' : BitVec 32} {body out : α}
    (h : fastSpinlockGuard mExclusiveMode flag body = some (out, flag')) : flag' = flag := by
  cases mExclusiveMode with
  | true => exact (guardedReturns h).2.1
  | false =>
    obtain ⟨entered, locked, last⟩ := Option.bind_eq_some_iff.mp h
    cases Option.some.inj last
    exact readReleases locked

variable {x y : LockedGame}

theorem getCurrentPlayersReads {outList total players}
    (ran : x.getCurrentPlayers outList = some (total, players, y)) : y.mLock = x.mLock + 1 := by
  obtain ⟨mLock, locked, last⟩ := Option.bind_eq_some_iff.mp ran
  obtain ⟨_, rfl⟩ := enterReadLockAdds locked
  cases Option.some.inj last
  rfl

theorem forPlayersReads {total players} {z : LockedGame} {body : Player → Player}
    (read : x.getCurrentPlayers [] = some (total, players, z))
    (last : (if total > 0 then some (z.forPlayers players body) else some z) = some y) :
    y.mLock = x.mLock + 1 := by
  have added := getCurrentPlayersReads read
  split at last
  · cases last
    exact added
  · cases last
    exact added

theorem execReads {c : Call} (reads : Reads c) (ran : x.exec c = some y) : y.mLock = x.mLock + 1 := by
  cases c with
  | registerPlayer player => exact absurd reads id
  | unregisterPlayer playerId => exact absurd reads id
  | getCurrentPlayers outList =>
    obtain ⟨⟨total, players, z⟩, read, rfl⟩ := Option.map_eq_some_iff.mp ran
    exact getCurrentPlayersReads read
  | doBuffAllPlayers event fromPlayerId =>
    obtain ⟨⟨total, players, z⟩, read, last⟩ := Option.bind_eq_some_iff.mp ran
    exact forPlayersReads read last
  | checkBuffTimeout =>
    obtain ⟨⟨total, players, z⟩, read, last⟩ := Option.bind_eq_some_iff.mp ran
    exact forPlayersReads read last

theorem execWrites {c : Call} (writes : ¬ Reads c) (ran : x.exec c = some y) : y.mLock = x.mLock := by
  cases c with
  | registerPlayer player =>
    obtain ⟨⟨id, z⟩, registered, rfl⟩ := Option.map_eq_some_iff.mp ran
    obtain ⟨⟨⟨_, manager⟩, mLock⟩, guarded, last⟩ := Option.bind_eq_some_iff.mp registered
    cases last
    exact guardReleases guarded
  | unregisterPlayer playerId =>
    obtain ⟨⟨manager, mLock⟩, guarded, last⟩ := Option.bind_eq_some_iff.mp ran
    cases last
    exact guardReleases guarded
  | getCurrentPlayers outList => exact absurd trivial writes
  | doBuffAllPlayers event fromPlayerId => exact absurd trivial writes
  | checkBuffTimeout => exact absurd trivial writes

/- A writer waits for readers, and so does not wait where the word is 0. -/
theorem execReturns {c : Call} (writes : ¬ Reads c) (free : x.mLock = 0) : ∃ y, x.exec c = some y := by
  have entered : enterWriteLock x.mLock = some lfWriteFlag := by
    rw [free]
    rfl
  cases c with
  | registerPlayer player =>
    simp only [exec, registerPlayer, fastSpinlockGuard, if_true, entered]
    exact ⟨_, rfl⟩
  | unregisterPlayer playerId =>
    simp only [exec, unregisterPlayer, fastSpinlockGuard, if_true, entered]
    exact ⟨_, rfl⟩
  | getCurrentPlayers outList => exact absurd trivial writes
  | doBuffAllPlayers event fromPlayerId => exact absurd trivial writes
  | checkBuffTimeout => exact absurd trivial writes

theorem stepReleased (x : LockedGame) (c : Call) (y : LockedGame) (free : x.mLock = 0)
    (h : Step x c y) : Released ⟨x, c, y⟩ ↔ ¬ Reads c := by
  constructor
  · intro released reads
    have zero : y.mLock = 0 := released free
    rw [execReads reads h, free] at zero
    exact absurd zero (by decide)
  · intro writes _
    exact (execWrites writes h).trans free

theorem lockReleased (x : LockedGame) (free : x.mLock = 0) (moves : List (Move LockedGame Call))
    (y : LockedGame) (run : Run Step x moves y) :
    ((∀ m ∈ moves, Released m) ↔ ∀ m ∈ moves, ¬ Reads m.action) ∧
    ((∀ m ∈ moves, ¬ Reads m.action) → y.mLock = 0 ∧ ∀ c, ¬ Reads c → ∃ z, y.exec c = some z) := by
  refine ⟨?_, fun writes => ?_⟩
  · exact run.everyMoveIff (I := fun x => x.mLock = 0) Released (fun _ c => ¬ Reads c) stepReleased
      (fun x c y free _ released => released free) free
  · have kept : y.mLock = 0 := by
      have quiet := run.restrict (P := fun c => ¬ Reads c) fun c mem => by
        obtain ⟨m, taken, rfl⟩ := List.mem_map.mp mem
        exact writes m taken
      exact quiet.invariant (I := fun x => x.mLock = 0)
        (fun x c y free h => (execWrites h.2 h.1).trans free) free
    exact ⟨kept, fun c writes => execReturns writes kept⟩

theorem lockReleasedRegistering : ∃ moves y, Run Step ⟨.create, 0⟩ moves y ∧
    actions moves = [.registerPlayer 7, .registerPlayer 8, .unregisterPlayer 1] ∧ y.mLock = 0 := by
  have run : ∃ moves y, Run Step ⟨.create, 0⟩ moves y ∧
      actions moves = [.registerPlayer 7, .registerPlayer 8, .unregisterPlayer 1] :=
    ⟨_, _, .more (a := Call.registerPlayer 7) rfl (.more (a := Call.registerPlayer 8) rfl
      (.more (a := Call.unregisterPlayer 1) rfl (.done _))), rfl⟩
  obtain ⟨moves, y, run, calls⟩ := run
  refine ⟨moves, y, run, calls, ((lockReleased ⟨.create, 0⟩ rfl moves y run).2 fun m mem => ?_).1⟩
  have taken : m.action ∈ actions moves := List.mem_map_of_mem mem
  rw [calls] at taken
  revert taken
  generalize m.action = c
  simp only [List.mem_cons, List.not_mem_nil, or_false]
  rintro (rfl | rfl | rfl) <;> exact id

theorem lockReaderLeft : ∃ moves y, Run Step ⟨.create, 0⟩ moves y ∧
    actions moves = [.getCurrentPlayers []] ∧ (¬ ∀ m ∈ moves, Released m) ∧
    y.exec (.registerPlayer 7) = none := by
  refine ⟨_, _, .more (a := Call.getCurrentPlayers []) rfl (.done _), rfl, fun released => ?_, rfl⟩
  have zero := released _ List.mem_cons_self rfl
  exact absurd zero (by decide)

end LockedGame
end IocpNetwork
