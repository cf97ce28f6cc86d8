import IocpNetwork.Lib.MachineWords
import Mathlib.Logic.Function.Basic

/-! Player.hpp and PlayerManager.hpp. A player is named by a number, its address; the
fields of a new one hold what its memory held, except for those with a constructor. The
bodies of GCEDispatch and DoSyncAfter are still to be written, so OnTick changes nothing. -/
namespace IocpNetwork
open MachineWords (signed)

structure Player where
  mPlayerId : Int
  mHeartBeat : Int
  mIsAlive : Bool
  mBuffList : Std.TreeMap Int Int

structure PlayerManager where
  mCurrentIssueId : Int
  mPlayerMap : Std.TreeMap Int Nat

namespace Player

/- std::map::insert leaves an entry that is there already. -/
def addBuff (player : Player) (_fromPlayerId buffId duration : Int) : Player :=
  {player with mBuffList := player.mBuffList.insertIfNew buffId duration}

def decayLoop (mHeartBeat : Int) : List (Int × Int) → Std.TreeMap Int Int → Std.TreeMap Int Int
  | [], mBuffList => mBuffList
  | (first, second) :: later, mBuffList =>
      let second := signed 32 (second - mHeartBeat)
      decayLoop mHeartBeat later
        (if second ≤ 0 then mBuffList.erase first else mBuffList.insert first second)

def decayTickBuff (player : Player) : Player :=
  {player with mBuffList := decayLoop player.mHeartBeat player.mBuffList.toList player.mBuffList}

end Player

namespace PlayerManager

def create : PlayerManager := ⟨0, ∅⟩

def registerPlayer (m : PlayerManager) (player : Nat) : Int × PlayerManager :=
  let id := signed 32 (m.mCurrentIssueId + 1)
  (id, ⟨id, m.mPlayerMap.insert id player⟩)

def unregisterPlayer (m : PlayerManager) (playerId : Int) : PlayerManager :=
  {m with mPlayerMap := m.mPlayerMap.erase playerId}

end PlayerManager

structure Game where
  manager : PlayerManager
  players : Nat → Option Player

namespace Game

def create : Game := ⟨.create, fun _ => none⟩

def setPlayer (g : Game) (p : Nat) (player : Player) : Game :=
  {g with players := Function.update g.players p (some player)}

def playerReset (g : Game) (p : Nat) (player : Player) : Game :=
  ({g with manager := g.manager.unregisterPlayer player.mPlayerId}).setPlayer p
    {player with mPlayerId := -1, mHeartBeat := -1, mIsAlive := false}

/- `memory` is what the fields hold before the constructor runs. -/
def construct (g : Game) (p : Nat) (memory : Player) : Game :=
  g.playerReset p {memory with mBuffList := ∅}

def start (g : Game) (p : Nat) (player : Player) (heartbeat : Int) : Game :=
  let player := {player with mIsAlive := true, mHeartBeat := heartbeat}
  let (id, manager) := g.manager.registerPlayer p
  ({g with manager := manager}).setPlayer p {player with mPlayerId := id}

end Game
end IocpNetwork
