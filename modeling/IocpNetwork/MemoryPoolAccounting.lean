import IocpNetwork.Lib.ThreadCount
import IocpNetwork.MemoryPoolThreads

/-! What a SmallSizeMemoryPool costs, over the interleavings of MemoryPoolThreads: how often
Pop falls back on _aligned_malloc, and what mAllocCount comes to. -/
namespace IocpNetwork.MemoryPool
open MachineWords (signed signedAdd)
open Runs (Run Move)
open ThreadCount (count countUpdate countNone countDisjoint)

/- Where a thread is, for the accounts of one pool: it found the list empty, it has a block
that is not counted yet, or it put one back that is still counted. -/
inductive Stage where
  | away
  | mallocing
  | uncounted
  | uncounting
  deriving DecidableEq, Repr

def Pc.stage (pool : Nat) : Pc → Stage
  | .mallocPool other _ => if other = pool then .mallocing else .away
  | .checking _ other _ | .counting _ other _ => if other = pool then .uncounted else .away
  | .uncounting other => if other = pool then .uncounting else .away
  | .idle | .popping _ _ | .mallocBig _ | .attaching _ _ | .writingExtra _ _ | .exchanging _
  | .pushing _ _ | .freeing _ => .away

def Pc.block : Pc → Option Nat
  | .checking b _ _ | .counting b _ _ | .attaching b _ | .writingExtra b _ | .exchanging b
  | .pushing b _ | .freeing b => some b
  | .idle | .popping _ _ | .mallocPool _ _ | .mallocBig _ | .uncounting _ => none

theorem Pc.mallocingBlock {pc : Pc} {pool : Nat} (found : pc.stage pool = .mallocing) : pc.block = none := by
  cases pc with
  | idle | popping | mallocPool | mallocBig | uncounting => rfl
  | checking b other r | counting b other r =>
    have either : (if other = pool then Stage.uncounted else .away) = .mallocing := found
    split at either <;> cases either
  | attaching | writingExtra | exchanging | pushing | freeing => cases found

namespace Threads
variable {T : Type*} [DecidableEq T] {h pool n : Nat} {s s' : Threads T} {t u : T}

def mallocs (pool : Nat) (m : Move (Threads T) T) : Bool :=
  (m.before.pc m.action).stage pool = .mallocing && (m.after.pc m.action).stage pool != .mallocing

def ownedOf (s : Threads T) (pool : Nat) : Nat := s.owned.countP fun o => s.heap.physical o.2 = some pool

inductive Change (pool : Nat) (s : Threads T) (t : T) (s' : Threads T) : Prop where
  | quiet (stage : (s'.pc t).stage pool = (s.pc t).stage pool)
      (blocks : ∀ b, s'.heap.physical b = some pool ↔ s.heap.physical b = some pool)
      (list : s'.heap.mFreeList pool = s.heap.mFreeList pool)
      (counter : s'.heap.mAllocCount pool = s.heap.mAllocCount pool)
  | empty (list : s.heap.mFreeList pool = []) (same : s'.heap = s.heap)
      (before : (s.pc t).stage pool = .away) (after : (s'.pc t).stage pool = .mallocing)
  | malloc (b : Nat) (unused : s.heap.physical b = none)
      (blocks : s'.heap.physical = Function.update s.heap.physical b (some pool))
      (list : s'.heap.mFreeList pool = s.heap.mFreeList pool)
      (counter : s'.heap.mAllocCount pool = s.heap.mAllocCount pool)
      (before : (s.pc t).stage pool = .mallocing) (after : (s'.pc t).stage pool = .uncounted)
  | pop (blocks : s'.heap.physical = s.heap.physical)
      (list : (s.heap.mFreeList pool).length = (s'.heap.mFreeList pool).length + 1)
      (counter : s'.heap.mAllocCount pool = s.heap.mAllocCount pool)
      (before : (s.pc t).stage pool = .away) (after : (s'.pc t).stage pool = .uncounted)
  | counted (blocks : s'.heap.physical = s.heap.physical)
      (list : s'.heap.mFreeList pool = s.heap.mFreeList pool)
      (counter : s'.heap.mAllocCount pool = signed 32 (s.heap.mAllocCount pool + 1))
      (before : (s.pc t).stage pool = .uncounted) (after : (s'.pc t).stage pool = .away)
  | push (blocks : s'.heap.physical = s.heap.physical)
      (list : (s'.heap.mFreeList pool).length = (s.heap.mFreeList pool).length + 1)
      (counter : s'.heap.mAllocCount pool = s.heap.mAllocCount pool)
      (before : (s.pc t).stage pool = .away) (after : (s'.pc t).stage pool = .uncounting)
  | uncounted (blocks : s'.heap.physical = s.heap.physical)
      (list : s'.heap.mFreeList pool = s.heap.mFreeList pool)
      (counter : s'.heap.mAllocCount pool = signed 32 (s.heap.mAllocCount pool - 1))
      (before : (s.pc t).stage pool = .uncounting) (after : (s'.pc t).stage pool = .away)

theorem Change.going {pc : Pc} (counters : s'.pc = Function.update s.pc t pc)
    (stage : pc.stage pool = (s.pc t).stage pool) (physical : s'.heap.physical = s.heap.physical)
    (list : s'.heap.mFreeList = s.heap.mFreeList) (counter : s'.heap.mAllocCount = s.heap.mAllocCount) :
    Change pool s t s' := by
  refine .quiet ?_ (fun b => by rw [physical]) (by rw [list]) (by rw [counter])
  rw [counters, Function.update_self, stage]

theorem stepCounters (step : Step h s t s') : ∃ pc, s'.pc = Function.update s.pc t pc := by
  cases step with
  | give => exact ⟨s.pc t, (Function.update_eq_self t s.pc).symm⟩
  | _ => exact ⟨_, rfl⟩

theorem popEmpty {heap : Heap} (null : (heap.interlockedPopEntrySList pool).1 = none) :
    heap.mFreeList pool = [] ∧ (heap.interlockedPopEntrySList pool).2 = heap := by
  unfold Heap.interlockedPopEntrySList at null ⊢
  split at null <;> trivial

theorem stepChange (small : pool ≤ 3840) {place} (linked : s.Linked place) (step : Step h s t s') :
    Change pool s t s' := by
  have knows := linked.threads t
  cases step with
  | callBig size idle large => exact .going rfl (by rw [idle]; rfl) rfl rfl rfl
  | callSmall size other idle small entry => exact .going rfl (by rw [idle]; rfl) rfl rfl rfl
  | popNull other r here null =>
    obtain ⟨list, same⟩ := popEmpty null
    by_cases this : other = pool
    · subst this
      exact .empty list same (by rw [here]; rfl) (by simp [goTo, Pc.stage])
    · rw [same]
      exact .going rfl (by rw [here, Pc.stage, if_neg this]; rfl) rfl rfl rfl
  | pop other r b here popped =>
    obtain ⟨rest, list, heap⟩ : ∃ rest, s.heap.mFreeList other = b :: rest ∧
        (s.heap.interlockedPopEntrySList other).2 =
          {s.heap with mFreeList := Function.update s.heap.mFreeList other rest} := by
      unfold Heap.interlockedPopEntrySList at popped ⊢
      split at popped <;> try contradiction
      cases popped
      exact ⟨_, by assumption, rfl⟩
    by_cases this : other = pool
    · subst this
      refine .pop (by rw [heap]; rfl) ?_ (by rw [heap]; rfl) (by rw [here]; rfl) (by simp [goTo, Pc.stage])
      simp [goTo, heap, list]
    · refine .quiet (by simp [goTo, here, Pc.stage, this]) (fun c => by rw [heap]; rfl) ?_ (by rw [heap]; rfl)
      rw [heap]
      exact Function.update_of_ne (Ne.symm this) _ _
  | mallocPool other r fresh here unused =>
    by_cases this : other = pool
    · subst this
      exact .malloc fresh.block unused rfl rfl rfl (by simp [here, Pc.stage]) (by simp [goTo, Pc.stage])
    · refine .quiet (by simp [goTo, here, Pc.stage, this]) (fun c => ?_) rfl rfl
      by_cases mine : c = fresh.block
      · subst mine
        simp [goTo, Heap.alignedMalloc, unused, this]
      · simp [goTo, Heap.alignedMalloc, mine]
  | check b other r here zero => exact .going rfl (by rw [here]; rfl) rfl rfl rfl
  | count b other r here =>
    by_cases this : other = pool
    · subst this
      exact .counted rfl rfl (Function.update_self _ _ _) (by simp [here, Pc.stage]) (by simp [goTo, Pc.stage])
    · exact .quiet (by simp [goTo, here, Pc.stage, this]) (fun _ => Iff.rfl) rfl
        (Function.update_of_ne (Ne.symm this) _ _)
  | mallocBig r fresh here unused =>
    rw [here] at knows
    have large : (maxAllocSize : Int) < r := knows
    unfold maxAllocSize at large
    refine .quiet (by simp [goTo, here, Pc.stage]) (fun c => ?_) rfl rfl
    by_cases mine : c = fresh.block
    · subst mine
      have other : r.toNat ≠ pool := by omega
      simp [goTo, Heap.alignedMalloc, unused, other]
    · simp [goTo, Heap.alignedMalloc, mine]
  | attach b r here quiet => exact .going rfl (by rw [here]; rfl) rfl rfl rfl
  | give u b owns => exact .quiet rfl (fun _ => Iff.rfl) rfl rfl
  | deallocate b extraInfo idle owns => exact .going rfl (by rw [idle]; rfl) rfl rfl rfl
  | deallocateAgain b extraInfo idle returned pooled unowned =>
    exact .going rfl (by rw [idle]; rfl) rfl rfl rfl
  | writeExtra b extraInfo here => exact .going rfl (by rw [here]; rfl) rfl rfl rfl
  | exchange b other here positive small entry => exact .going rfl (by rw [here]; rfl) rfl rfl rfl
  | exchangeBig b here positive large => exact .going rfl (by rw [here]; rfl) rfl rfl rfl
  | push b other here =>
    by_cases this : other = pool
    · subst this
      refine .push rfl ?_ rfl (by rw [here]; rfl) (by simp [goTo, Pc.stage])
      simp [goTo, Heap.interlockedPushEntrySList]
    · exact .quiet (by simp [goTo, here, Pc.stage, this]) (fun _ => Iff.rfl)
        (Function.update_of_ne (Ne.symm this) _ _) rfl
  | uncount other here =>
    by_cases this : other = pool
    · subst this
      exact .uncounted rfl rfl (Function.update_self _ _ _) (by simp [here, Pc.stage]) (by simp [goTo, Pc.stage])
    · exact .quiet (by simp [goTo, here, Pc.stage, this]) (fun _ => Iff.rfl) rfl
        (Function.update_of_ne (Ne.symm this) _ _)
  | free b here =>
    rw [here] at knows
    obtain ⟨_, room, physical, large⟩ := knows
    unfold maxAllocSize at large
    refine .quiet (by simp [goTo, here, Pc.stage]) (fun c => ?_) rfl rfl
    by_cases mine : c = b
    · subst mine
      have other : room ≠ pool := by omega
      simp [goTo, Heap.alignedFree, physical, other]
    · simp [goTo, Heap.alignedFree, mine]

def Accounted (s : Threads T) : Prop := ∀ b room, s.heap.physical b = some room →
  b ∈ s.heap.mFreeList room ∨ (∃ u, (u, b) ∈ s.owned) ∨ ∃ u, (s.pc u).block = some b

theorem Accounted.next (accounted : s.Accounted) {pc : Pc} (counters : s'.pc = Function.update s.pc t pc)
    (physical : ∀ b room, s'.heap.physical b = some room → s.heap.physical b = some room ∨ pc.block = some b)
    (listed : ∀ b room, b ∈ s.heap.mFreeList room → b ∈ s'.heap.mFreeList room ∨ pc.block = some b)
    (owned : ∀ u b, (u, b) ∈ s.owned → (∃ v, (v, b) ∈ s'.owned) ∨ pc.block = some b)
    (mine : ∀ b room, (s.pc t).block = some b → s'.heap.physical b = some room →
      b ∈ s'.heap.mFreeList room ∨ (∃ v, (v, b) ∈ s'.owned) ∨ pc.block = some b) : s'.Accounted := by
  intro b room here
  have called : pc.block = some b → ∃ u, (s'.pc u).block = some b := fun block =>
    ⟨t, by rw [counters, Function.update_self]; exact block⟩
  rcases physical b room here with old | block
  · rcases accounted b room old with list | ⟨u, owns⟩ | ⟨u, names⟩
    · exact (listed b room list).imp_right fun block => .inr (called block)
    · exact .inr ((owned u b owns).imp_right called)
    · by_cases same : u = t
      · subst same
        exact (mine b room names here).imp_right fun rest => rest.imp_right called
      · refine .inr (.inr ⟨u, ?_⟩)
        rw [counters, Function.update_of_ne same]
        exact names
  · exact .inr (.inr (called block))

theorem Accounted.going (accounted : s.Accounted) {pc : Pc} (counters : s'.pc = Function.update s.pc t pc)
    (block : pc.block = (s.pc t).block) (physical : s'.heap.physical = s.heap.physical)
    (list : s'.heap.mFreeList = s.heap.mFreeList) (owned : s'.owned = s.owned) : s'.Accounted := by
  refine accounted.next counters (fun b room here => .inl ?_) (fun b room mem => .inl ?_)
    (fun u b owns => .inl ⟨u, ?_⟩) fun b room names _ => .inr (.inr (block.trans names))
  · rwa [← physical]
  · rwa [list]
  · rwa [owned]

theorem stepAccounted {place} (linked : s.Linked place) (accounted : s.Accounted) (step : Step h s t s') :
    s'.Accounted := by
  have knows := linked.threads t
  cases step with
  | callBig size idle large => exact accounted.going rfl (by rw [idle]; rfl) rfl rfl rfl
  | callSmall size pool idle small entry => exact accounted.going rfl (by rw [idle]; rfl) rfl rfl rfl
  | popNull pool r here null =>
    rw [(popEmpty null).2]
    exact accounted.going rfl (by rw [here]; rfl) rfl rfl rfl
  | pop pool r b here popped =>
    unfold Heap.interlockedPopEntrySList at popped ⊢
    split at popped <;> try contradiction
    rename_i first rest list
    cases popped
    refine accounted.next rfl (fun c room physical => .inl physical) (fun c room mem => ?_)
      (fun u c owns => .inl ⟨u, owns⟩) (by simp [here, Pc.block])
    by_cases same : room = pool
    · subst same
      rw [list] at mem
      rcases List.mem_cons.mp mem with rfl | later
      · exact .inr rfl
      · exact .inl (by simpa [goTo] using later)
    · exact .inl (by simpa [goTo, same] using mem)
  | mallocPool pool r fresh here unused =>
    refine accounted.next rfl (fun c room physical => ?_) (fun c room mem => .inl mem)
      (fun u c owns => .inl ⟨u, owns⟩) (by simp [here, Pc.block])
    by_cases same : c = fresh.block
    · exact .inr (congrArg some same.symm)
    · exact .inl (by simpa [goTo, Heap.alignedMalloc, same] using physical)
  | check b pool r here zero => exact accounted.going rfl (by rw [here]; rfl) rfl rfl rfl
  | count b pool r here => exact accounted.going rfl (by rw [here]; rfl) rfl rfl rfl
  | mallocBig r fresh here unused =>
    refine accounted.next rfl (fun c room physical => ?_) (fun c room mem => .inl mem)
      (fun u c owns => .inl ⟨u, owns⟩) (by simp [here, Pc.block])
    by_cases same : c = fresh.block
    · exact .inr (congrArg some same.symm)
    · exact .inl (by simpa [goTo, Heap.alignedMalloc, same] using physical)
  | attach b r here quiet =>
    refine accounted.next rfl (fun c room physical => .inl physical) (fun c room mem => .inl mem)
      (fun u c owns => .inl ⟨u, List.mem_cons_of_mem _ owns⟩) fun c room names _ => ?_
    rw [here] at names
    cases names
    exact .inr (.inl ⟨t, List.mem_cons_self⟩)
  | give u b owns =>
    refine accounted.next (Function.update_eq_self t s.pc).symm (fun c room physical => .inl physical)
      (fun c room mem => .inl mem) (fun v c old => .inl ?_) fun c room names _ => .inr (.inr names)
    by_cases same : (v, c) = (t, b)
    · cases same
      exact ⟨u, List.mem_cons_self⟩
    · exact ⟨v, List.mem_cons_of_mem _ ((List.mem_erase_of_ne same).mpr old)⟩
  | deallocate b extraInfo idle owns =>
    refine accounted.next rfl (fun c room physical => .inl physical) (fun c room mem => .inl mem)
      (fun v c old => ?_) (by simp [idle, Pc.block])
    by_cases same : (v, c) = (t, b)
    · cases same
      exact .inr rfl
    · exact .inl ⟨v, (List.mem_erase_of_ne same).mpr old⟩
  | deallocateAgain b extraInfo idle returned pooled unowned =>
    exact accounted.next rfl (fun c room physical => .inl physical) (fun c room mem => .inl mem)
      (fun u c owns => .inl ⟨u, owns⟩) (by simp [idle, Pc.block])
  | writeExtra b extraInfo here => exact accounted.going rfl (by rw [here]; rfl) rfl rfl rfl
  | exchange b pool here positive small entry => exact accounted.going rfl (by rw [here]; rfl) rfl rfl rfl
  | exchangeBig b here positive large => exact accounted.going rfl (by rw [here]; rfl) rfl rfl rfl
  | push b pool here =>
    rw [here] at knows
    obtain ⟨_, pooled, _⟩ := knows
    refine accounted.next rfl (fun c room physical => .inl physical) (fun c room mem => .inl ?_)
      (fun u c owns => .inl ⟨u, owns⟩) fun c room names physical => .inl ?_
    · by_cases same : room = pool
      · subst same
        simpa [goTo, Heap.interlockedPushEntrySList] using .inr mem
      · simpa [goTo, Heap.interlockedPushEntrySList, same] using mem
    · rw [here] at names
      cases names
      have same : room = pool := Option.some.inj (physical.symm.trans pooled)
      subst same
      simp [goTo, Heap.interlockedPushEntrySList]
  | uncount pool here => exact accounted.going rfl (by rw [here]; rfl) rfl rfl rfl
  | free b here =>
    refine accounted.next rfl (fun c room physical => .inl ?_) (fun c room mem => .inl mem)
      (fun u c owns => .inl ⟨u, owns⟩) fun c room names physical => ?_
    · by_cases same : c = b
      · simp [goTo, Heap.alignedFree, same] at physical
      · simpa [goTo, Heap.alignedFree, same] using physical
    · rw [here] at names
      cases names
      simp [goTo, Heap.alignedFree] at physical

section Books
variable [Fintype T]

def inStage (s : Threads T) (pool : Nat) (stage : Stage) : Nat := count (fun pc => pc.stage pool = stage) s.pc

structure Books (s : Threads T) (pool n : Nat) : Prop where
  blocks : ∃ blocks : Finset Nat, blocks.card = n ∧ ∀ b, b ∈ blocks ↔ s.heap.physical b = some pool
  counter : s.heap.mAllocCount pool = signed 32
    (n - (s.heap.mFreeList pool).length - s.inStage pool .uncounted + s.inStage pool .uncounting)

omit [DecidableEq T] in
theorem initialBooks (header : Nat → MemAllocInfo) : (initial header : Threads T).Books pool 0 where
  blocks := ⟨∅, rfl, fun b => by simp [initial, Heap.initial]⟩
  counter := by
    have none : ∀ stage ≠ .away, (initial header : Threads T).inStage pool stage = 0 := fun stage here =>
      countNone fun t same => here same.symm
    rw [none _ (by decide), none _ (by decide)]
    rfl

theorem stagesMove (pool : Nat) (step : Step h s t s') (stage : Stage) :
    s'.inStage pool stage + (if (s.pc t).stage pool = stage then 1 else 0) =
      s.inStage pool stage + if (s'.pc t).stage pool = stage then 1 else 0 := by
  obtain ⟨pc, counters⟩ := stepCounters step
  unfold inStage
  rw [counters, Function.update_self]
  exact countUpdate t pc

def mallocsHere (pool : Nat) (s : Threads T) (t : T) (s' : Threads T) : Nat :=
  if mallocs pool ⟨s, t, s'⟩ then 1 else 0

omit [DecidableEq T] [Fintype T] in
theorem mallocsElsewhere (before : (s.pc t).stage pool ≠ .mallocing) : mallocsHere pool s t s' = 0 := by
  simp [mallocsHere, mallocs, before]

omit [DecidableEq T] [Fintype T] in
theorem mallocsQuiet (stage : (s'.pc t).stage pool = (s.pc t).stage pool) : mallocsHere pool s t s' = 0 := by
  simp [mallocsHere, mallocs, stage]

omit [DecidableEq T] [Fintype T] in
theorem mallocsOnce (before : (s.pc t).stage pool = .mallocing) (after : (s'.pc t).stage pool = .uncounted) :
    mallocsHere pool s t s' = 1 := by
  simp [mallocsHere, mallocs, before, after]

theorem stepBooks (change : Change pool s t s') (step : Step h s t s') (books : s.Books pool n) :
    s'.Books pool (n + mallocsHere pool s t s') := by
  obtain ⟨⟨blocks, card, known⟩, counter⟩ := books
  have uncounted := stagesMove pool step .uncounted
  have uncounting := stagesMove pool step .uncounting
  cases change with
  | quiet stage same list counted =>
    rw [stage] at uncounted uncounting
    rw [mallocsQuiet stage]
    refine ⟨⟨blocks, card, fun b => (known b).trans (same b).symm⟩, ?_⟩
    rw [counted, list, counter, Nat.add_right_cancel uncounted, Nat.add_right_cancel uncounting]
    rfl
  | empty list same before after =>
    simp [before, after] at uncounted uncounting
    rw [mallocsElsewhere (before.trans_ne Stage.noConfusion)]
    exact ⟨⟨blocks, card, by rw [same]; exact known⟩, by rw [same, uncounted, uncounting]; exact counter⟩
  | malloc b unused physical list counted before after =>
    simp [before, after] at uncounted uncounting
    have fresh : b ∉ blocks := by
      rw [known, unused]
      simp
    rw [mallocsOnce before after]
    refine ⟨⟨insert b blocks, by rw [Finset.card_insert_of_notMem fresh, card], fun c => ?_⟩, ?_⟩
    · rw [Finset.mem_insert, physical]
      by_cases this : c = b
      · subst this
        simp
      · simp [this, known]
    · rw [counted, counter, list, uncounted, uncounting]
      congr 1
      push_cast
      omega
  | pop physical list counted before after =>
    simp [before, after] at uncounted uncounting
    rw [mallocsElsewhere (before.trans_ne Stage.noConfusion)]
    refine ⟨⟨blocks, card, by rw [physical]; exact known⟩, ?_⟩
    rw [counted, counter, list, uncounted, uncounting]
    congr 1
    push_cast
    omega
  | counted physical list counted before after =>
    simp [before, after] at uncounted uncounting
    rw [mallocsElsewhere (before.trans_ne Stage.noConfusion)]
    refine ⟨⟨blocks, card, by rw [physical]; exact known⟩, ?_⟩
    rw [counted, counter, list, ← uncounted, uncounting, signedAdd]
    congr 1
    push_cast
    omega
  | push physical list counted before after =>
    simp [before, after] at uncounted uncounting
    rw [mallocsElsewhere (before.trans_ne Stage.noConfusion)]
    refine ⟨⟨blocks, card, by rw [physical]; exact known⟩, ?_⟩
    rw [counted, counter, list, uncounted, uncounting]
    congr 1
    push_cast
    omega
  | uncounted physical list counted before after =>
    simp [before, after] at uncounted uncounting
    rw [mallocsElsewhere (before.trans_ne Stage.noConfusion)]
    refine ⟨⟨blocks, card, by rw [physical]; exact known⟩, ?_⟩
    rw [counted, counter, list, uncounted, ← uncounting, Int.sub_eq_add_neg, signedAdd]
    congr 1
    push_cast
    omega

/- Blocks that are neither listed nor owned are named by different threads, and none of these
is on its way to _aligned_malloc. -/
theorem Accounted.demand (accounted : s.Accounted) (books : s.Books pool n)
    (list : s.heap.mFreeList pool = []) : n + s.inStage pool .mallocing ≤ s.ownedOf pool + Fintype.card T := by
  obtain ⟨⟨blocks, card, known⟩, _⟩ := books
  let names : Finset T := Finset.univ.filter fun u => (s.pc u).block.isSome
  let owned : List Nat := (s.owned.filter fun o => s.heap.physical o.2 = some pool).map Prod.snd
  have covered : blocks ⊆ owned.toFinset ∪ names.image fun u => (s.pc u).block.getD 0 := by
    intro b mem
    have here := (known b).mp mem
    rcases accounted b pool here with listed | ⟨u, owns⟩ | ⟨u, block⟩
    · rw [list] at listed
      contradiction
    · refine Finset.mem_union_left _ (List.mem_toFinset.mpr (List.mem_map.mpr ⟨(u, b), ?_, rfl⟩))
      exact List.mem_filter.mpr ⟨owns, decide_eq_true here⟩
    · refine Finset.mem_union_right _ (Finset.mem_image.mpr ⟨u, ?_, by rw [block]; rfl⟩)
      exact Finset.mem_filter.mpr ⟨Finset.mem_univ u, by rw [block]; rfl⟩
  have many := (Finset.card_le_card covered).trans (Finset.card_union_le _ _)
  have few : owned.toFinset.card ≤ s.ownedOf pool := by
    refine (List.toFinset_card_le owned).trans (Nat.le_of_eq ?_)
    rw [List.length_map, ownedOf, List.countP_eq_length_filter]
  have named : (names.image fun u => (s.pc u).block.getD 0).card ≤ names.card := Finset.card_image_le
  have apart := countDisjoint (f := s.pc) (P := fun pc => pc.block.isSome)
    (Q := fun pc => pc.stage pool = .mallocing) fun pc block stage => by
      rw [Pc.mallocingBlock stage] at block
      cases block
  have total : names.card + s.inStage pool .mallocing ≤ Fintype.card T := apart
  omega

structure Kept (pool n : Nat) (s : Threads T) : Prop where
  linked : ∃ place, s.Linked place
  accounted : s.Accounted
  books : s.Books pool n

omit [DecidableEq T] in
theorem initialKept (header : Nat → MemAllocInfo) : (initial header : Threads T).Kept pool 0 :=
  ⟨⟨_, initialLinked header⟩, fun b room here => (by cases here), initialBooks header⟩

theorem stepKept (small : pool ≤ 3840) (kept : s.Kept pool n) (step : Step h s t s') :
    s'.Kept pool (n + mallocsHere pool s t s') := by
  obtain ⟨⟨place, linked⟩, accounted, books⟩ := kept
  exact ⟨stepLinked s t s' ⟨place, linked⟩ step, stepAccounted linked accounted step,
    stepBooks (stepChange small linked step) step books⟩

theorem runKept (small : pool ≤ 3840) {moves} (run : Run (Step h) s moves s') (kept : s.Kept pool n) :
    s'.Kept pool (n + moves.countP (mallocs pool)) := by
  induction run generalizing n with
  | done => exact kept
  | more first _ ih =>
    have last := ih (stepKept small kept first)
    rw [List.countP_cons, Nat.add_comm (List.countP _ _), ← Nat.add_assoc]
    exact last

/- The blocks, and those on their way, stay within the demand: a thread finds the list empty
only while every block is out. -/
theorem stepWithin {M : Nat} (small : pool ≤ 3840) (kept : s.Kept pool n) (step : Step h s t s')
    (few : s'.ownedOf pool ≤ M) (within : n + s.inStage pool .mallocing ≤ M + Fintype.card T) :
    n + mallocsHere pool s t s' + s'.inStage pool .mallocing ≤ M + Fintype.card T := by
  have kept' := stepKept small kept step
  obtain ⟨place, linked⟩ := kept.linked
  have stages := stagesMove pool step .mallocing
  cases stepChange small linked step with
  | empty list same before after =>
    have out := kept'.accounted.demand kept'.books (by rw [same]; exact list)
    omega
  | malloc b unused physical list counted before after =>
    rw [mallocsOnce before after]
    simp [before, after] at stages
    omega
  | quiet stage same list counted =>
    rw [mallocsQuiet stage]
    rw [stage] at stages
    omega
  | pop physical list counted before after | push physical list counted before after
  | counted physical list counted before after | uncounted physical list counted before after =>
    rw [mallocsElsewhere (before.trans_ne Stage.noConfusion)]
    simp [before, after] at stages
    omega

theorem runWithin {M : Nat} (small : pool ≤ 3840) {moves} (run : Run (Step h) s moves s')
    (kept : s.Kept pool n) (few : ∀ m ∈ moves, m.after.ownedOf pool ≤ M)
    (within : n + s.inStage pool .mallocing ≤ M + Fintype.card T) :
    n + moves.countP (mallocs pool) + s'.inStage pool .mallocing ≤ M + Fintype.card T := by
  induction run generalizing n with
  | done => exact within
  | more first _ ih =>
    obtain ⟨here, later⟩ := List.forall_mem_cons.mp few
    have last := ih (stepKept small kept first) later (stepWithin small kept first here within)
    rw [List.countP_cons, Nat.add_comm (List.countP _ _), ← Nat.add_assoc]
    exact last

theorem blocksBounded (header : Nat → MemAllocInfo) {moves : List (Move (Threads T) T)}
    (run : Run (Step h) (initial header) moves s) (small : pool ≤ 3840) {M : Nat}
    (few : ∀ m ∈ moves, m.after.ownedOf pool ≤ M) : moves.countP (mallocs pool) ≤ M + Fintype.card T := by
  have none : (initial header : Threads T).inStage pool .mallocing = 0 := countNone fun t same => by cases same
  have within := runWithin small run (initialKept header) few (by omega)
  omega

theorem blocksBoundedRecycled : ∃ (moves : List (Move (Threads Bool) Bool)) (s : Threads Bool),
    Run (Step 16) (initial fun _ => ⟨7, 7⟩) moves s ∧ moves.length = 15 ∧
    moves.countP (mallocs 128) ≤ 1 + Fintype.card Bool := by
  obtain ⟨moves, s, run, length, _, _, _, few⟩ := recycledRun
  have bounded := blocksBounded (fun _ => ⟨7, 7⟩) run (show 128 ≤ 3840 by decide) fun m mem =>
    (List.countP_le_length.trans (few m mem) : m.after.ownedOf 128 ≤ 1)
  exact ⟨moves, s, run, length, bounded⟩

omit [DecidableEq T] in
theorem Kept.atRest (kept : s.Kept pool n) (rest : ∀ t, s.pc t = .idle) :
    n = (s.heap.mFreeList pool).length + s.ownedOf pool := by
  obtain ⟨⟨place, linked⟩, accounted, ⟨⟨blocks, card, known⟩, _⟩⟩ := kept
  let owned : List Nat := (s.owned.filter fun o => s.heap.physical o.2 = some pool).map Prod.snd
  have ownedBlock : ∀ b, b ∈ owned ↔ (∃ u, (u, b) ∈ s.owned) ∧ s.heap.physical b = some pool := by
    simp [owned]
  have same : blocks = (s.heap.mFreeList pool ++ owned).toFinset := by
    ext b
    rw [List.mem_toFinset, List.mem_append, known, ownedBlock]
    constructor
    · intro here
      rcases accounted b pool here with listed | owns | ⟨u, block⟩
      · exact .inl listed
      · exact .inr ⟨owns, here⟩
      · rw [rest u] at block
        cases block
    · rintro (listed | ⟨_, here⟩)
      · have block := linked.blocks b
        rw [(linked.listed pool b).mp listed] at block
        exact block.1
      · exact here
  have distinct : (s.heap.mFreeList pool ++ owned).Nodup := by
    refine List.nodup_append.mpr ⟨linked.listNodup pool, ?_, fun b listed c mem same => ?_⟩
    · refine (linked.ownedNodup.filter _).map_on ?_
      rintro ⟨u, b⟩ left ⟨v, c⟩ right same
      obtain rfl : b = c := same
      have first := (linked.owned u b).mp (List.mem_filter.mp left).1
      rw [(linked.owned v b).mp (List.mem_filter.mp right).1] at first
      cases first
      rfl
    · subst same
      obtain ⟨⟨u, owns⟩, _⟩ := (ownedBlock b).mp mem
      exact linked.unlisted ((linked.owned u b).mp owns) (by simp) pool listed
  rw [← card, same, List.toFinset_card_of_nodup distinct, List.length_append, List.length_map, ownedOf,
    List.countP_eq_length_filter]

/- mAllocCount is the number of blocks that callers own, whenever no call is under way. -/
theorem allocCountExact (header : Nat → MemAllocInfo) {moves : List (Move (Threads T) T)}
    (run : Run (Step h) (initial header) moves s) (small : pool ≤ 3840) (rest : ∀ t, s.pc t = .idle) :
    s.heap.mAllocCount pool = signed 32 (s.ownedOf pool) := by
  have kept := runKept small run (initialKept header)
  have none : ∀ stage ≠ .away, s.inStage pool stage = 0 := fun stage here =>
    countNone fun t same => here (by rw [← same, rest t]; rfl)
  rw [kept.books.counter, none _ (by decide), none _ (by decide), kept.atRest rest]
  congr 1
  push_cast
  omega

theorem allocCountExactRecycled : ∃ (moves : List (Move (Threads Bool) Bool)) (s : Threads Bool),
    Run (Step 16) (initial fun _ => ⟨7, 7⟩) moves s ∧ moves.length = 15 ∧ s.heap.mAllocCount 128 = 1 := by
  obtain ⟨moves, s, run, length, owned, rest, physical, _⟩ := recycledRun
  have exact := allocCountExact (fun _ => ⟨7, 7⟩) run (show 128 ≤ 3840 by decide) rest
  have one : s.ownedOf 128 = 1 := by
    unfold ownedOf
    rw [owned]
    simp [physical]
  rw [one] at exact
  exact ⟨moves, s, run, length, exact⟩

end Books

end Threads
end IocpNetwork.MemoryPool
