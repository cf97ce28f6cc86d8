import IocpNetwork.ObjectPoolFreeList

/-! How much memory an ObjectPool takes: operator new asks for a chunk only while every slot
is live. -/
namespace IocpNetwork.ObjectPool
open MachineWords (signed signedExact)
open Runs (Run Move)

variable {p : PoolParams} {s : ObjectPool p} {M : Nat}

structure Grown (M : Nat) (s : ObjectPool p) : Prop where
  sound : s.Sound
  total : s.mTotalAllocCount = s.chunks.length * p.allocCount
  needed : s.chunks.length * p.allocCount < M + p.allocCount

theorem initialGrown (memory : Nat → UInt8) : (initial memory : ObjectPool p).Grown M where
  sound := initialSound memory
  total := by simp [initial]
  needed := by
    have positive := p.allocCountPositive
    simp only [initial, List.length_nil]
    omega

theorem Grown.refilled (grown : s.Grown M) (empty : s.mFreeList = 0) {fresh : Chunk p}
    (fits : s.mTotalAllocCount + p.allocCount < 2 ^ 31) (few : (s.refill fresh).pop.2.live.length ≤ M) :
    (s.refill fresh).pop.2.mTotalAllocCount = (s.refill fresh).pop.2.chunks.length * p.allocCount ∧
      (s.refill fresh).pop.2.chunks.length * p.allocCount < M + p.allocCount := by
  have allLive := (grown.sound.allLive empty).2
  have total := grown.total
  have counted : signed 32 (s.mTotalAllocCount + p.allocCount) = s.mTotalAllocCount + p.allocCount :=
    signedExact (w := 31) (by omega) fits
  have chunks : (s.refill fresh).pop.2.chunks.length * p.allocCount =
      s.chunks.length * p.allocCount + p.allocCount := Nat.succ_mul _ _
  have live : s.live.length + 1 ≤ M := few
  refine ⟨?_, by omega⟩
  show signed 32 (s.mTotalAllocCount + p.allocCount) = _
  rw [counted, total]
  exact_mod_cast chunks.symm

theorem stepGrown (s : ObjectPool p) (a : Action p) (t : ObjectPool p) (grown : s.Grown M)
    (h : Step s a t ∧ s.Keeps a ∧ t.live.length ≤ M) : t.Grown M := by
  obtain ⟨step, keeps, few⟩ := h
  have sound := (stepGood s a t grown.sound step).2 keeps
  cases step with
  | operatorNew fresh disjoint =>
    by_cases empty : s.mFreeList = 0
    · have ran : s.operatorNew fresh = (s.refill fresh).pop := if_pos empty
      rw [ran] at sound few ⊢
      obtain ⟨total, needed⟩ := grown.refilled empty (keeps empty).2 few
      exact ⟨sound, total, needed⟩
    · have ran : s.operatorNew fresh = s.pop := if_neg empty
      rw [ran] at sound ⊢
      exact ⟨sound, grown.total, grown.needed⟩
  | operatorDelete obj live _ ran =>
    unfold operatorDelete at ran
    split at ran <;> cases ran
    exact ⟨sound, grown.total, grown.needed⟩
  | use obj offset data live inside => exact ⟨sound, grown.total, grown.needed⟩

theorem chunksBounded (memory : Nat → UInt8) (moves : List (Move (ObjectPool p) (Action p)))
    (s : ObjectPool p) (run : Run Step (initial memory) moves s)
    (keeps : ∀ m ∈ moves, m.before.Keeps m.action) (few : ∀ m ∈ moves, m.after.live.length ≤ M) :
    s.mTotalAllocCount = s.chunks.length * p.allocCount ∧
      s.chunks.length * p.allocCount < M + p.allocCount := by
  have restricted := run.restrictMoves (P := fun m => m.before.Keeps m.action ∧ m.after.live.length ≤ M)
    fun m mem => ⟨keeps m mem, few m mem⟩
  have grown := restricted.invariant stepGrown (initialGrown memory)
  exact ⟨grown.total, grown.needed⟩

theorem chunksBoundedTwo : ∃ moves s, Run Step (initial (p := twoSlots) (fun _ => 0)) moves s ∧
    moves.length = 4 ∧ s.chunks.length * 2 < 2 + 2 := by
  have run : ∃ moves s, Run Step (initial (p := twoSlots) (fun _ => 0)) moves s ∧ moves.length = 4 ∧
      (∀ m ∈ moves, m.before.Keeps m.action) ∧ ∀ m ∈ moves, m.after.live.length ≤ 2 := by
    refine ⟨_, _, .more (.operatorNew _ (filledChunk 0) (fun _ _ mem => absurd mem List.not_mem_nil))
      (.more (.operatorNew _ (filledChunk 0) (fun empty => absurd empty (by decide)))
      (.more (.operatorDelete _ 4096 (by decide) _ rfl)
      (.more (.operatorNew _ (filledChunk 0) (fun empty => absurd empty (by decide))) (.done _)))), rfl, ?_, ?_⟩
    · simp only [List.forall_mem_cons]
      exact ⟨fun _ => ⟨by decide, by decide⟩, fun empty => absurd empty (by decide), trivial,
        fun empty => absurd empty (by decide), fun _ mem => absurd mem List.not_mem_nil⟩
    · simp only [List.forall_mem_cons]
      exact ⟨by decide, by decide, by decide, by decide, fun _ mem => absurd mem List.not_mem_nil⟩
  obtain ⟨moves, s, run, length, keeps, few⟩ := run
  exact ⟨moves, s, run, length, (chunksBounded _ moves s run keeps few).2⟩

end IocpNetwork.ObjectPool
