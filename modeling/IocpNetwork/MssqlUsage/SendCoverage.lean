import IocpNetwork.MssqlUsage.SendPipeline

/-! What FlushSend's result says about the bytes that are still to be sent. Its caller
flushes again where it is false. One WSASend takes the contiguous bytes only, so what
region B holds, and what the cast to ULONG cuts off, is not on its way. -/
namespace IocpNetwork.MssqlUsage.World
open Runs (Run Move actions execute executeRun)

variable {w : Nat} {x y : World w}

def covers (c : OverlappedIOContext) (a : Nat) : Prop :=
  ∃ p, c.mWsaBuf.buf = some p ∧ p ≤ a ∧ a < p + c.mWsaBuf.len

def AllCovered (x : World w) : Prop :=
  ∀ a, x.session.mSendBuffer.Stored a → ∃ c ∈ x.sends, c ∈ x.issued ∧ covers c a

def CallsWsaSend (x : World w) : Prop :=
  x.session.mSendBuffer.getContiguiousBytes ≠ 0 ∧ x.session.mSendPendingCount ≤ 0

def TrueMeansCovered (m : Move (World w) (Action × Option Bool)) : Prop :=
  match m.action with
  | (.flushSend r _, some true) => m.before.session.mConnected ≠ 0 →
      ¬ (m.before.CallsWsaSend ∧ ¬ r.Started) → m.after.AllCovered
  | _ => True

def LeavesBytes (x : World w) : Action → Prop
  | .flushSend r _ => x.session.mConnected ≠ 0 ∧ x.CallsWsaSend ∧ r.Started ∧
      (x.session.mSendBuffer.mBRegionSize ≠ 0 ∨ 2 ^ 32 ≤ x.session.mSendBuffer.mARegionSize)
  | _ => False

instance (x : World w) : Decidable x.CallsWsaSend := inferInstanceAs (Decidable (_ ∧ _))
instance (x : World w) (a : Action) : Decidable (x.LeavesBytes a) :=
  match a with
  | .flushSend r _ => inferInstanceAs (Decidable (x.session.mConnected ≠ 0 ∧ x.CallsWsaSend ∧ r.Started ∧
      (x.session.mSendBuffer.mBRegionSize ≠ 0 ∨ 2 ^ 32 ≤ x.session.mSendBuffer.mARegionSize)))
  | .preRecv _ | .postRecv _ | .postSend _ | .disconnectRequest _ _ | .failedCompletion _ _
  | .completion _ _ => isFalse id

theorem coveredByOne (valid : x.session.mSendBuffer.Valid) {c : OverlappedIOContext}
    (one : x.sends = [c]) (issued : c ∈ x.issued)
    (start : c.mWsaBuf.buf = some x.session.mSendBuffer.mARegionPointer)
    (part : c.mWsaBuf.len ≤ x.session.mSendBuffer.mARegionSize) :
    x.AllCovered ↔ x.session.mSendBuffer.mBRegionSize = 0 ∧
      c.mWsaBuf.len = x.session.mSendBuffer.mARegionSize := by
  constructor
  · intro all
    have range : ∀ a, x.session.mSendBuffer.Stored a → x.session.mSendBuffer.mARegionPointer ≤ a ∧
        a < x.session.mSendBuffer.mARegionPointer + c.mWsaBuf.len := by
      intro a stored
      obtain ⟨d, mem, _, p, buf, low, high⟩ := all a stored
      rw [one] at mem
      cases List.mem_singleton.mp mem
      rw [start] at buf
      cases buf
      exact ⟨low, high⟩
    constructor
    · by_contra some
      cases h : x.session.mSendBuffer.mBRegionPointer with
      | none => exact some (valid.bNull h)
      | some p =>
        -- B lies below A, where the send does not reach
        have inside := valid.bInside p h
        have first := range p (.inr ⟨p, h, by omega, by omega⟩)
        omega
    · by_contra less
      have last := range (x.session.mSendBuffer.mARegionPointer + c.mWsaBuf.len)
        (.inl ⟨by omega, by omega⟩)
      omega
  · rintro ⟨none, full⟩ a (⟨low, high⟩ | ⟨p, _, low, high⟩)
    · exact ⟨c, one ▸ List.mem_singleton.mpr rfl, issued, _, start, low, by omega⟩
    · omega

theorem nothingStored (none : x.session.mSendBuffer.getContiguiousBytes = 0) : x.AllCovered := by
  have sizes : x.session.mSendBuffer.mARegionSize = 0 ∧ x.session.mSendBuffer.mBRegionSize = 0 := by
    unfold CircularBuffer.getContiguiousBytes at none
    split at none <;> omega
  rintro a (⟨low, high⟩ | ⟨p, _, low, high⟩) <;> omega

theorem Pipeline.posted (line : x.Pipeline) (calls : x.CallsWsaSend)
    (after : y = ((x.opened x.sendContext).issue x.sendContext).setSendPending
      (x.session.mSendPendingCount + 1)) :
    x.session.mSendPendingCount = 0 ∧ (y.AllCovered ↔
      ¬ (x.session.mSendBuffer.mBRegionSize ≠ 0 ∨ 2 ^ 32 ≤ x.session.mSendBuffer.mARegionSize)) := by
  obtain ⟨some, idle⟩ := calls
  obtain ⟨start, part⟩ := line.sendContext some
  rcases line.sending with ⟨none, zero⟩ | ⟨c, _, count, _⟩
  · refine ⟨zero, ?_⟩
    have one : y.sends = [x.sendContext] := by
      rw [after]
      exact postedSends none _
    have issued : x.sendContext ∈ y.issued := by
      rw [after]
      exact List.mem_cons_self
    have buffer : y.session.mSendBuffer = x.session.mSendBuffer := by
      rw [after]
      rfl
    have len : x.sendContext.mWsaBuf.len = x.session.mSendBuffer.mARegionSize % 2 ^ 32 := by
      simp only [World.sendContext, fresh, line.valid.contiguousA]
    rw [coveredByOne (buffer ▸ line.valid) one issued (buffer ▸ start) (buffer ▸ part), buffer, len]
    omega
  · omega

theorem trueMeansCoveredIff (x : World w) (a : Action × Option Bool) (y : World w)
    (line : x.Pipeline) (h : SendStep x a y) :
    TrueMeansCovered ⟨x, a, y⟩ ↔ ¬ x.LeavesBytes a.1 := by
  obtain ⟨act, out⟩ := a
  cases act with
  | flushSend r lastError =>
    obtain ⟨b, ran, rfl⟩ := returningBoolOk h.1.2
    rcases flushSendOk ran with ⟨rfl, quiet⟩ | ⟨on, some, idle, _, ⟨started, told, after⟩ | ⟨failed, told, _⟩⟩
    · have kept : TrueMeansCovered ⟨y, (.flushSend r lastError, Option.some b), y⟩ := by
        rcases quiet with ⟨off, rfl⟩ | ⟨_, none, _⟩ | ⟨_, _, _, rfl⟩
        · exact fun on => absurd off on
        · cases b with
          | false => trivial
          | true => exact fun _ _ => nothingStored none
        · trivial
      refine ⟨fun _ leaves => ?_, fun _ => kept⟩
      obtain ⟨on, ⟨some, idle⟩, _⟩ := leaves
      rcases quiet with ⟨off, _⟩ | ⟨_, none, _⟩ | ⟨_, _, pending, _⟩
      · exact on off
      · exact some none
      · omega
    · obtain ⟨zero, covered⟩ := line.posted ⟨some, idle⟩ after
      have told : b = true := by simp [told, zero]
      subst told
      simp only [TrueMeansCovered, LeavesBytes, covered]
      constructor
      · rintro all ⟨_, _, _, left⟩
        exact all on (fun fails => fails.2 started) left
      · intro meets _ _ left
        exact meets ⟨on, ⟨some, idle⟩, started, left⟩
    · subst told
      refine ⟨fun _ leaves => failed leaves.2.2.1, fun _ _ reaches => ?_⟩
      exact absurd ⟨⟨some, idle⟩, failed⟩ reaches
  | postSend data => exact ⟨fun _ => id, fun _ => trivial⟩
  | completion c n => exact ⟨fun _ => id, fun _ => trivial⟩
  | _ => exact absurd h.2 id

theorem Pipeline.everyFlush (line : x.Pipeline) {moves} (run : Run SendStep x moves y) :
    (∀ m ∈ moves, TrueMeansCovered m) ↔ ∀ m ∈ moves, ¬ m.before.LeavesBytes m.action.1 :=
  run.everyMoveIff (I := Pipeline) TrueMeansCovered (fun x a => ¬ x.LeavesBytes a.1)
    trueMeansCoveredIff (fun x a y line h _ => stepPipeline x a y line h) line

theorem flushSendCovers (s : Session w) (memory : Nat → UInt8) (buffer : Nat) (capacity : BitVec w)
    (empty : s.mSendBuffer = .create memory buffer capacity) (idle : s.mSendPendingCount = 0)
    (moves : List (Move (World w) (Action × Option Bool))) (x : World w)
    (run : Run SendStep (start s) moves x) :
    moves.flatMap acknowledged ++ x.session.mSendBuffer.content = moves.flatMap accepted ∧
    ((∀ m ∈ moves, TrueMeansCovered m) ↔ ∀ m ∈ moves, ¬ m.before.LeavesBytes m.action.1) := by
  have valid : s.mSendBuffer.Valid := empty ▸ CircularBuffer.createValid memory buffer capacity
  have first : (start s).Pipeline := startPipeline valid idle
  exact ⟨bytesConserved empty first run, first.everyFlush run⟩

theorem flushSendCoversPart : ∃ moves x, Run SendStep (start idleSession) moves x ∧
    (actions moves).map Prod.snd = [some true, some true, none, some true] ∧
    ∀ m ∈ moves, TrueMeansCovered m := by
  have ran : ∃ moves x, execute Enabled exec (start idleSession) [.postSend [1, 2, 3],
      .flushSend .done 0, .completion ⟨0, .ioSend, ⟨3, some 8192⟩, .drNone⟩ 2,
      .flushSend .done 0] = some (moves, x) ∧ (∀ a ∈ actions moves, OfSendPipeline a.1) ∧
      (actions moves).map Prod.snd = [some true, some true, none, some true] ∧
      ∀ m ∈ moves, ¬ m.before.LeavesBytes m.action.1 := ⟨_, _, rfl, by decide, rfl, by decide⟩
  obtain ⟨moves, x, ran, ofPipeline, results, meets⟩ := ran
  have run := (executeRun ran).1.restrict ofPipeline
  exact ⟨moves, x, run, results, (flushSendCovers idleSession _ _ _ rfl rfl moves x run).2.mpr meets⟩

/- Two bytes accepted behind a partial completion go to region B; the next FlushSend sends
the two of region A and returns true. -/
theorem flushSendLeavesB : ¬ ∀ moves x, Run SendStep (start idleSession) moves x →
    ∀ m ∈ moves, TrueMeansCovered m := by
  intro claimed
  have ran : ∃ moves x, execute Enabled exec (start idleSession) [.postSend [1, 2, 3, 4, 5, 6],
      .flushSend .done 0, .completion ⟨0, .ioSend, ⟨6, some 8192⟩, .drNone⟩ 4, .postSend [7, 8],
      .flushSend .done 0] = some (moves, x) ∧ (∀ a ∈ actions moves, OfSendPipeline a.1) ∧
      ¬ ∀ m ∈ moves, ¬ m.before.LeavesBytes m.action.1 := ⟨_, _, rfl, by decide, by decide⟩
  obtain ⟨moves, x, ran, ofPipeline, leaves⟩ := ran
  have run := (executeRun ran).1.restrict ofPipeline
  have line : (start idleSession).Pipeline := startPipeline (CircularBuffer.createValid _ _ _) rfl
  exact leaves ((line.everyFlush run).mp (claimed moves x run))

end IocpNetwork.MssqlUsage.World
