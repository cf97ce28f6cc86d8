import IocpNetwork.MssqlUsage.SendCoverage

/-! How long mSendBuffer takes to empty once nothing more is posted: FlushSend is called
again, whether its WSASend starts or fails, and every completion takes all of its send. -/
namespace IocpNetwork.MssqlUsage.World
open Runs (Run Move actions execute executeRun)

variable {w : Nat} {x y : World w}

def OfDrain : Action → Prop
  | .flushSend _ _ => True
  | .completion c n => n = c.mWsaBuf.len
  | .preRecv _ | .postRecv _ | .postSend _ | .disconnectRequest _ _ | .failedCompletion _ _ => False

instance (a : Action) : Decidable (OfDrain a) :=
  match a with
  | .flushSend _ _ => isTrue trivial
  | .completion c n => inferInstanceAs (Decidable (n = c.mWsaBuf.len))
  | .preRecv _ | .postRecv _ | .postSend _ | .disconnectRequest _ _ | .failedCompletion _ _ => isFalse id

def DrainStep (x : World w) (a : Action × Option Bool) (y : World w) : Prop := SendStep x a y ∧ OfDrain a.1

def Completes (m : Move (World w) (Action × Option Bool)) : Prop :=
  match m.action.1 with
  | .completion _ _ => True
  | _ => False

instance (m : Move (World w) (Action × Option Bool)) : Decidable (Completes m) := by
  unfold Completes
  split
  · exact isTrue trivial
  · exact isFalse id

/- The completions that are still needed: for the send in flight, for what it leaves out of
region A, and for region B. -/
def ahead (x : World w) : Nat :=
  (match x.sends with
    | [] => if x.session.mSendBuffer.mARegionSize = 0 then 0 else 1
    | c :: _ => if c.mWsaBuf.len < x.session.mSendBuffer.mARegionSize then 2 else 1) +
  if x.session.mSendBuffer.mBRegionSize = 0 then 0 else 1

theorem aheadBound (x : World w) : x.ahead ≤ if x.sends = [] then 2 else 3 := by
  unfold ahead
  cases x.sends with
  | nil =>
    rw [if_pos rfl]
    dsimp only
    split <;> split <;> omega
  | cons c later =>
    rw [if_neg (List.cons_ne_nil c later)]
    dsimp only
    split <;> split <;> omega

/- FlushSend casts the length to ULONG. -/
structure Draining (x : World w) : Prop where
  line : x.Pipeline
  short : x.session.mSendBuffer.mCapacity < 2 ^ 32

theorem getFreeSpaceSizeSizes (b : CircularBuffer w) :
    b.getFreeSpaceSize.2.mARegionSize = b.mARegionSize ∧ b.getFreeSpaceSize.2.mBRegionSize = b.mBRegionSize ∧
      b.getFreeSpaceSize.2.mCapacity = b.mCapacity := by
  unfold CircularBuffer.getFreeSpaceSize
  split
  · exact ⟨rfl, rfl, rfl⟩
  · split <;> exact ⟨rfl, rfl, rfl⟩

theorem removeCapacity {b : CircularBuffer w} (v : b.Valid) {len : Nat} (fitsLen : len < 2 ^ w) :
    (b.remove len).mCapacity = b.mCapacity := by
  rcases v.removeCases fitsLen with ⟨_, same⟩ | ⟨_, _, same⟩ | ⟨_, same⟩ <;> rw [same]

theorem appendCapacity (b : CircularBuffer w) (data : List UInt8) : (b.append data).mCapacity = b.mCapacity := by
  have queried := (getFreeSpaceSizeSizes b).2.2
  unfold CircularBuffer.append CircularBuffer.commit
  dsimp only
  split <;> exact queried

theorem stepDraining (x : World w) (a : Action × Option Bool) (y : World w) (draining : x.Draining)
    (h : SendStep x a y) : y.Draining := by
  refine ⟨stepPipeline x a y draining.line h, ?_⟩
  have short := draining.short
  cases stepEffect h with
  | kept _ _ _ _ _ buffer =>
    rcases buffer with same | queried
    · rwa [same]
    · rwa [queried, (getFreeSpaceSizeSizes _).2.2]
  | appended data room =>
    show (x.session.mSendBuffer.append data).mCapacity < 2 ^ 32
    rwa [appendCapacity]
  | posted => exact short
  | removed c n out mem kind some part =>
    obtain ⟨_, _, flight⟩ := draining.line.completing mem kind
    show (x.session.mSendBuffer.remove n).mCapacity < 2 ^ 32
    rwa [removeCapacity draining.line.valid (draining.line.partFits flight part).2]

theorem Draining.removed (draining : x.Draining) {c : OverlappedIOContext} (mem : c ∈ x.live)
    (kind : c.mIoType = .ioSend) :
    1 + ((x.sendCompletion c.mWsaBuf.len).closed c).ahead ≤ x.ahead := by
  obtain ⟨one, _, flight⟩ := draining.line.completing mem kind
  obtain ⟨inA, fits⟩ := draining.line.partFits flight (Nat.le_refl _)
  have none : ((x.sendCompletion c.mWsaBuf.len).closed c).sends = [] := by
    have rest : x.live.filter (fun c => c.mIoType = .ioSend) = [c] := one
    show (x.live.erase c).filter (fun c => c.mIoType = .ioSend) = []
    rw [← List.erase_filter, rest, List.erase_cons_head]
  have buffer : ((x.sendCompletion c.mWsaBuf.len).closed c).session.mSendBuffer =
      x.session.mSendBuffer.remove c.mWsaBuf.len := rfl
  unfold ahead
  rw [none, one, buffer]
  dsimp only
  rcases draining.line.valid.removeCases fits with ⟨less, same⟩ | ⟨all, inB, same⟩ | ⟨all, same⟩
  · rw [same]
    simp only [if_pos less]
    rw [if_neg (by omega)]
    omega
  · rw [same]
    simp only
    rw [if_neg (by omega), if_pos trivial, if_neg (by omega), if_neg (by omega)]
  · rw [same]
    simp only
    rw [if_pos trivial]
    split <;> omega

theorem Draining.posted (draining : x.Draining) (some : x.session.mSendBuffer.getContiguiousBytes ≠ 0)
    (idle : x.session.mSendPendingCount ≤ 0) (pending : Int) :
    (((x.opened x.sendContext).issue x.sendContext).setSendPending pending).ahead ≤ x.ahead := by
  have inA := draining.line.valid.contiguousA
  have fits := draining.line.valid.aFits
  have short := draining.short
  have len : x.sendContext.mWsaBuf.len = x.session.mSendBuffer.mARegionSize := by
    simp only [World.sendContext, fresh, inA]
    exact Nat.mod_eq_of_lt (by omega)
  have none : x.sends = [] := by
    rcases draining.line.sending with ⟨none, _⟩ | ⟨c, _, count, _⟩
    · exact none
    · omega
  have buffer : (((x.opened x.sendContext).issue x.sendContext).setSendPending pending).session.mSendBuffer =
      x.session.mSendBuffer := rfl
  unfold ahead
  rw [postedSends none, none, buffer]
  dsimp only
  rw [len, if_neg (Nat.lt_irrefl _), if_neg (show x.session.mSendBuffer.mARegionSize ≠ 0 by omega)]

theorem stepAhead (x : World w) (a : Action × Option Bool) (y : World w) (draining : x.Draining)
    (h : DrainStep x a y) : (if Completes ⟨x, a, y⟩ then 1 else 0) + y.ahead ≤ x.ahead := by
  obtain ⟨step, ofDrain⟩ := h
  cases stepEffect step with
  | kept calls others sends issued pending buffer =>
    have quiet : ¬ Completes ⟨x, a, y⟩ := by
      unfold Completes
      split
      · exact absurd (by assumption) (others _ _)
      · exact id
    have sizes : y.session.mSendBuffer.mARegionSize = x.session.mSendBuffer.mARegionSize ∧
        y.session.mSendBuffer.mBRegionSize = x.session.mSendBuffer.mBRegionSize := by
      rcases buffer with same | queried
      · rw [same]
        exact ⟨rfl, rfl⟩
      · rw [queried]
        exact ⟨(getFreeSpaceSizeSizes _).1, (getFreeSpaceSizeSizes _).2.1⟩
    unfold ahead
    rw [if_neg quiet, sends, sizes.1, sizes.2, Nat.zero_add]
  | appended data room => exact absurd ofDrain id
  | posted r lastError out some idle =>
    have same := draining.posted some idle (x.session.mSendPendingCount + 1)
    exact (Nat.zero_add _).trans_le same
  | removed c n out mem kind some part =>
    obtain rfl : n = c.mWsaBuf.len := ofDrain
    exact draining.removed mem kind

theorem Pipeline.drained (line : x.Pipeline) (none : x.sends = []) (done : ¬ x.CallsWsaSend) :
    x.session.mSendBuffer.content = [] := by
  have idle : x.session.mSendPendingCount ≤ 0 := by
    rcases line.sending with ⟨_, zero⟩ | ⟨c, one, _⟩
    · omega
    · rw [none] at one
      cases one
  by_contra some
  obtain ⟨p, _, pos, _⟩ := line.valid.contiguousPrefix.2 some
  exact done ⟨by omega, idle⟩

theorem sendsDrain (s : Session w) (memory : Nat → UInt8) (buffer : Nat) (capacity : BitVec w)
    (empty : s.mSendBuffer = .create memory buffer capacity) (idle : s.mSendPendingCount = 0)
    (short : capacity.toNat < 2 ^ 32) (moves later : List (Move (World w) (Action × Option Bool)))
    (x y : World w) (run : Run SendStep (start s) moves x) (drain : Run DrainStep x later y) :
    later.countP (fun m => Completes m) ≤ (if x.sends = [] then 2 else 3) ∧
    (y.sends = [] → ¬ y.CallsWsaSend →
      (moves ++ later).flatMap acknowledged = (moves ++ later).flatMap accepted) := by
  have valid : s.mSendBuffer.Valid := empty ▸ CircularBuffer.createValid memory buffer capacity
  have first : (start s).Draining := ⟨startPipeline valid idle, by
    show s.mSendBuffer.mCapacity < 2 ^ 32
    rw [empty]
    exact short⟩
  have draining := run.invariant stepDraining first
  constructor
  · have paid := drain.amortized Completes (fun _ => False) ahead
      (fun x a y draining h => stepDraining x a y draining h.1)
      (fun x a y draining h => by simpa using stepAhead x a y draining h) draining
    have bound := x.aheadBound
    have none : later.countP (fun _ => decide False) = 0 := by simp
    omega
  · intro none done
    have whole : Run SendStep (start s) (moves ++ later) y := run.append (drain.weaken fun _ _ _ h => h.1)
    have line := whole.invariant stepPipeline first.line
    have conserved := bytesConserved empty first.line whole
    rwa [line.drained none done, List.append_nil] at conserved

theorem sendsDrainThree : ∃ moves later x y, Run SendStep (start idleSession) moves x ∧
    Run DrainStep x later y ∧ later.countP (fun m => Completes m) = 3 ∧
    (moves ++ later).flatMap acknowledged = [1, 2, 3, 4, 5, 6, 7, 8] := by
  have ran : ∃ moves x, execute Enabled exec (start idleSession) [.postSend [1, 2, 3, 4], .flushSend .done 0,
      .completion ⟨0, .ioSend, ⟨4, some 8192⟩, .drNone⟩ 3, .flushSend .done 0, .postSend [5, 6, 7],
      .postSend [8]] = some (moves, x) ∧ (∀ a ∈ actions moves, OfSendPipeline a.1) ∧
      moves.flatMap accepted = [1, 2, 3, 4, 5, 6, 7, 8] ∧
      ∃ later y, execute Enabled exec x [.completion ⟨1, .ioSend, ⟨1, some 8195⟩, .drNone⟩ 1,
        .flushSend .done 0, .completion ⟨2, .ioSend, ⟨3, some 8196⟩, .drNone⟩ 3, .flushSend .done 0,
        .completion ⟨3, .ioSend, ⟨1, some 8192⟩, .drNone⟩ 1] = some (later, y) ∧
      (∀ a ∈ actions later, OfSendPipeline a.1 ∧ OfDrain a.1) ∧ later.countP (fun m => Completes m) = 3 ∧
      later.flatMap accepted = [] ∧ y.sends = [] ∧ ¬ y.CallsWsaSend :=
    ⟨_, _, rfl, by decide, rfl, _, _, rfl, by decide, rfl, rfl, rfl, by decide⟩
  obtain ⟨moves, x, ran, ofPipeline, given, later, y, drained, ofDrain, three, silent, none, done⟩ := ran
  have run := (executeRun ran).1.restrict ofPipeline
  have drain : Run DrainStep x later y := ((executeRun drained).1.restrict ofDrain).weaken
    fun _ _ _ h => ⟨⟨h.1, h.2.1⟩, h.2.2⟩
  have facts := sendsDrain idleSession _ _ _ rfl rfl (by decide) moves later x y run drain
  refine ⟨moves, later, x, y, run, drain, three, (facts.2 none done).trans ?_⟩
  rw [List.flatMap_append, given, silent]
  rfl

end IocpNetwork.MssqlUsage.World
