import IocpNetwork.MemoryPoolTable
import IocpNetwork.Lib.Runs

/-! Allocate and Deallocate of any number of threads, one shared access at a time. -/
namespace IocpNetwork.MemoryPool
open Runs (Reachable)
open Heap (Fresh realAllocSize)

/- The next access of a thread. Allocate: the pop, _aligned_malloc, the assertion of Pop,
the counter, the header. Deallocate: mExtraInfo, the exchange with its assertion, the
push or the free, the counter. -/
inductive Pc where
  | idle
  | popping (pool : Nat) (r : Int)
  | mallocPool (pool : Nat) (r : Int)
  | checking (b pool : Nat) (r : Int)
  | counting (b pool : Nat) (r : Int)
  | mallocBig (r : Int)
  | attaching (b : Nat) (r : Int)
  | writingExtra (b : Nat) (extraInfo : Int)
  | exchanging (b : Nat)
  | pushing (b pool : Nat)
  | uncounting (pool : Nat)
  | freeing (b : Nat)
  deriving DecidableEq, Repr

def Pc.Deallocating (b : Nat) : Pc → Prop
  | .writingExtra c _ | .exchanging c => c = b
  | _ => False

/- `attached` marks the blocks whose header was placed since their memory was allocated,
`owned` lists the owners of the blocks that Allocate returned. -/
structure Threads (T : Type*) where
  heap : Heap
  attached : Nat → Bool
  owned : List (T × Nat)
  pc : T → Pc

variable {T : Type*}

def Threads.initial (header : Nat → MemAllocInfo) : Threads T :=
  ⟨Heap.initial header, fun _ => false, [], fun _ => .idle⟩

def Threads.Pooled (s : Threads T) (b : Nat) : Prop := ∃ pool ≤ 3840, s.heap.physical b = some pool

section Steps
variable [DecidableEq T]

def Threads.goTo (s : Threads T) (t : T) (pc : Pc) : Threads T := {s with pc := Function.update s.pc t pc}

/- A failing CRASH_ASSERT has no successor. A caller owns a block from the return of
Allocate to its call of Deallocate. A repeated Deallocate may overlap anything, the
owner's call included, as long as nobody owns the block while it lasts: a block is not
handed out again while such a call has not reached its exchange. Of two calls that
overlap, the one whose exchange comes second is the repeated one. -/
inductive Step (h : Nat) : Threads T → T → Threads T → Prop where
  | callBig (s : Threads T) (t : T) (size : Int) (idle : s.pc t = .idle)
      (large : realAllocSize h size > maxAllocSize) :
      Step h s t (s.goTo t (.mallocBig (realAllocSize h size)))
  | callSmall (s : Threads T) (t : T) (size : Int) (pool : Nat) (idle : s.pc t = .idle)
      (small : ¬ realAllocSize h size > maxAllocSize) (entry : poolAt (realAllocSize h size) = .ok pool) :
      Step h s t (s.goTo t (.popping pool (realAllocSize h size)))
  | popNull (s : Threads T) (t : T) (pool : Nat) (r : Int) (here : s.pc t = .popping pool r)
      (null : (s.heap.interlockedPopEntrySList pool).1 = none) :
      Step h s t ({s with heap := (s.heap.interlockedPopEntrySList pool).2}.goTo t (.mallocPool pool r))
  | pop (s : Threads T) (t : T) (pool : Nat) (r : Int) (b : Nat) (here : s.pc t = .popping pool r)
      (popped : (s.heap.interlockedPopEntrySList pool).1 = some b) :
      Step h s t ({s with heap := (s.heap.interlockedPopEntrySList pool).2}.goTo t (.checking b pool r))
  | mallocPool (s : Threads T) (t : T) (pool : Nat) (r : Int) (fresh : Fresh)
      (here : s.pc t = .mallocPool pool r) (unused : s.heap.physical fresh.block = none) :
      Step h s t ({s with heap := s.heap.alignedMalloc pool fresh.block fresh.garbage}.goTo t
        (.counting fresh.block pool r))
  | check (s : Threads T) (t : T) (b pool : Nat) (r : Int) (here : s.pc t = .checking b pool r)
      (zero : (s.heap.header b).mAllocSize = 0) : Step h s t (s.goTo t (.counting b pool r))
  | count (s : Threads T) (t : T) (b pool : Nat) (r : Int) (here : s.pc t = .counting b pool r) :
      Step h s t ({s with heap := s.heap.countAlloc pool 1}.goTo t (.attaching b r))
  | mallocBig (s : Threads T) (t : T) (r : Int) (fresh : Fresh) (here : s.pc t = .mallocBig r)
      (unused : s.heap.physical fresh.block = none) :
      Step h s t ({s with heap := s.heap.alignedMalloc r.toNat fresh.block fresh.garbage}.goTo t
        (.attaching fresh.block r))
  | attach (s : Threads T) (t : T) (b : Nat) (r : Int) (here : s.pc t = .attaching b r)
      (quiet : ∀ u, ¬ (s.pc u).Deallocating b) :
      Step h s t ({s with
        heap := s.heap.attachMemAllocInfo b r
        attached := Function.update s.attached b true
        owned := (t, b) :: s.owned}.goTo t .idle)
  | give (s : Threads T) (t u : T) (b : Nat) (owns : (t, b) ∈ s.owned) :
      Step h s t {s with owned := (u, b) :: s.owned.erase (t, b)}
  | deallocate (s : Threads T) (t : T) (b : Nat) (extraInfo : Int) (idle : s.pc t = .idle)
      (owns : (t, b) ∈ s.owned) :
      Step h s t ({s with owned := s.owned.erase (t, b)}.goTo t (.writingExtra b extraInfo))
  | deallocateAgain (s : Threads T) (t : T) (b : Nat) (extraInfo : Int) (idle : s.pc t = .idle)
      (returned : s.attached b = true) (pooled : s.Pooled b) (unowned : ∀ u, (u, b) ∉ s.owned) :
      Step h s t (s.goTo t (.writingExtra b extraInfo))
  | writeExtra (s : Threads T) (t : T) (b : Nat) (extraInfo : Int)
      (here : s.pc t = .writingExtra b extraInfo) :
      Step h s t ({s with heap := s.heap.setExtraInfo b extraInfo}.goTo t (.exchanging b))
  | exchange (s : Threads T) (t : T) (b pool : Nat) (here : s.pc t = .exchanging b)
      (positive : (s.heap.exchangeAllocSize b).1 > 0)
      (small : ¬ (s.heap.exchangeAllocSize b).1 > maxAllocSize)
      (entry : poolAt (s.heap.exchangeAllocSize b).1 = .ok pool) :
      Step h s t ({s with heap := (s.heap.exchangeAllocSize b).2}.goTo t (.pushing b pool))
  | exchangeBig (s : Threads T) (t : T) (b : Nat) (here : s.pc t = .exchanging b)
      (positive : (s.heap.exchangeAllocSize b).1 > 0)
      (large : (s.heap.exchangeAllocSize b).1 > maxAllocSize) :
      Step h s t ({s with heap := (s.heap.exchangeAllocSize b).2}.goTo t (.freeing b))
  | push (s : Threads T) (t : T) (b pool : Nat) (here : s.pc t = .pushing b pool) :
      Step h s t ({s with heap := s.heap.interlockedPushEntrySList pool b}.goTo t (.uncounting pool))
  | uncount (s : Threads T) (t : T) (pool : Nat) (here : s.pc t = .uncounting pool) :
      Step h s t ({s with heap := s.heap.countAlloc pool (-1)}.goTo t .idle)
  | free (s : Threads T) (t : T) (b : Nat) (here : s.pc t = .freeing b) :
      Step h s t ({s with
        heap := s.heap.alignedFree b
        attached := Function.update s.attached b false}.goTo t .idle)

end Steps

inductive Place (T : Type*) where
  | unallocated
  | listed (pool : Nat)
  | taken (t : T)
  | owned (t : T)
  | leaving (t : T)
  | returning (t : T)

namespace Threads
variable {h : Nat} {s s' : Threads T} {place : Nat → Place T} {t u : T} {b : Nat}

def BlockOk (s : Threads T) (b : Nat) : Place T → Prop
  | .unallocated => s.heap.physical b = none ∧ s.attached b = false
  | .listed pool => s.heap.physical b = some pool ∧ pool ≤ 3840 ∧
      (s.heap.header b).mAllocSize = 0 ∧ s.attached b = true
  | .taken _ => s.heap.physical b ≠ none ∧ (s.attached b = true → (s.heap.header b).mAllocSize = 0)
  | .owned _ | .leaving _ => (∃ room, s.heap.physical b = some room ∧
      Routes (s.heap.header b).mAllocSize room) ∧ s.attached b = true
  | .returning _ => s.heap.physical b ≠ none ∧ (s.heap.header b).mAllocSize = 0 ∧ s.attached b = true

def Before (s : Threads T) (place : Nat → Place T) (t : T) (b : Nat) : Prop :=
  s.attached b = true ∧ (∀ u, place b ≠ .owned u) ∧ (place b = .leaving t ∨ s.Pooled b)

def ThreadOk (s : Threads T) (place : Nat → Place T) (t : T) : Pc → Prop
  | .idle | .uncounting _ => True
  | .popping pool r | .mallocPool pool r => 0 < r ∧ poolAt r = .ok pool
  | .mallocBig r => (maxAllocSize : Int) < r
  | .checking b pool r => place b = .taken t ∧ s.heap.physical b = some pool ∧ poolAt r = .ok pool ∧
      s.attached b = true
  | .counting b pool r => place b = .taken t ∧ s.heap.physical b = some pool ∧ poolAt r = .ok pool
  | .attaching b r => place b = .taken t ∧ ∃ room, s.heap.physical b = some room ∧ Routes r room
  | .writingExtra b _ | .exchanging b => s.Before place t b
  | .pushing b pool => place b = .returning t ∧ s.heap.physical b = some pool ∧ pool ≤ 3840
  | .freeing b => place b = .returning t ∧ ∃ room, s.heap.physical b = some room ∧ maxAllocSize < room

structure Linked (s : Threads T) (place : Nat → Place T) : Prop where
  listed : ∀ pool b, b ∈ s.heap.mFreeList pool ↔ place b = .listed pool
  listNodup : ∀ pool, (s.heap.mFreeList pool).Nodup
  owned : ∀ t b, (t, b) ∈ s.owned ↔ place b = .owned t
  ownedNodup : s.owned.Nodup
  blocks : ∀ b, s.BlockOk b (place b)
  threads : ∀ t, s.ThreadOk place t (s.pc t)

theorem initialLinked (header : Nat → MemAllocInfo) :
    (initial header : Threads T).Linked fun _ => .unallocated where
  listed := fun _ _ => by simp [initial, Heap.initial]
  listNodup := fun _ => List.nodup_nil
  owned := fun _ _ => by simp [initial]
  ownedNodup := List.nodup_nil
  blocks := fun _ => ⟨rfl, rfl⟩
  threads := fun _ => trivial

structure Elsewhere (s s' : Threads T) (b : Nat) : Prop where
  physical : ∀ c, c ≠ b → s'.heap.physical c = s.heap.physical c
  header : ∀ c, c ≠ b → (s'.heap.header c).mAllocSize = (s.heap.header c).mAllocSize
  attached : ∀ c, c ≠ b → s'.attached c = s.attached c
  listed : ∀ pool c, c ≠ b → (c ∈ s'.heap.mFreeList pool ↔ c ∈ s.heap.mFreeList pool)
  owned : ∀ u c, c ≠ b → ((u, c) ∈ s'.owned ↔ (u, c) ∈ s.owned)

theorem Elsewhere.block (same : Elsewhere s s' b) {c : Nat} (different : c ≠ b) {where_ : Place T}
    (ok : s.BlockOk c where_) : s'.BlockOk c where_ := by
  have physical := same.physical c different
  have header := same.header c different
  have attached := same.attached c different
  cases where_ <;> simp only [BlockOk, physical, header, attached] at ok ⊢ <;> exact ok

theorem Elsewhere.thread (same : Elsewhere s s' b) {next : Place T} {pc : Pc}
    (ok : s.ThreadOk place u pc) (untaken : place b ≠ .taken u) (unreturned : place b ≠ .returning u)
    (before : pc.Deallocating b → s.Before place u b → s'.Before (Function.update place b next) u b) :
    s'.ThreadOk (Function.update place b next) u pc := by
  have keep : ∀ c, c ≠ b → Function.update place b next c = place c := fun c different =>
    Function.update_of_ne different _ _
  have notB : ∀ c, place c = .taken u ∨ place c = .returning u → c ≠ b := by
    rintro c holds rfl
    exact holds.elim untaken unreturned
  cases pc with
  | idle | uncounting | popping | mallocPool | mallocBig => exact ok
  | checking c pool r =>
    have different := notB c (.inl ok.1)
    simp only [ThreadOk, keep c different, same.physical c different, same.attached c different]
    exact ok
  | counting c pool r =>
    have different := notB c (.inl ok.1)
    simp only [ThreadOk, keep c different, same.physical c different]
    exact ok
  | attaching c r =>
    have different := notB c (.inl ok.1)
    simp only [ThreadOk, keep c different, same.physical c different]
    exact ok
  | writingExtra c _ | exchanging c =>
    by_cases here : c = b
    · subst here
      exact before rfl ok
    · simp only [ThreadOk, Before, Pooled, keep c here, same.physical c here, same.attached c here]
      exact ok
  | pushing c pool =>
    have different := notB c (.inr ok.1)
    simp only [ThreadOk, keep c different, same.physical c different]
    exact ok
  | freeing c =>
    have different := notB c (.inr ok.1)
    simp only [ThreadOk, keep c different, same.physical c different]
    exact ok

theorem Linked.unused (linked : s.Linked place) (unused : s.heap.physical b = none) :
    place b = .unallocated ∧ s.attached b = false := by
  have block := linked.blocks b
  cases at_ : place b <;> rw [at_] at block
  case unallocated => exact ⟨rfl, block.2⟩
  case listed =>
    rw [block.1] at unused
    contradiction
  case taken => exact absurd unused block.1
  case returning => exact absurd unused block.1
  case owned | leaving =>
    obtain ⟨⟨room, physical, _⟩, _⟩ := block
    rw [physical] at unused
    contradiction

theorem Linked.unlisted (linked : s.Linked place) {now : Place T} (at_ : place b = now)
    (other : ∀ pool, now ≠ .listed pool) (pool : Nat) : b ∉ s.heap.mFreeList pool := fun mem =>
  other pool (at_.symm.trans ((linked.listed pool b).mp mem))

theorem Linked.unowned (linked : s.Linked place) {now : Place T} (at_ : place b = now)
    (other : ∀ u, now ≠ .owned u) (u : T) : (u, b) ∉ s.owned := fun mem =>
  other u (at_.symm.trans ((linked.owned u b).mp mem))

theorem Linked.before (linked : s.Linked place) (here : (s.pc t).Deallocating b) :
    s.Before place t b := by
  have knows := linked.threads t
  cases at_ : s.pc t <;> rw [at_] at knows here
  case writingExtra c extraInfo =>
    have same : c = b := here
    exact same ▸ knows
  case exchanging c =>
    have same : c = b := here
    exact same ▸ knows
  all_goals exact absurd here id

/- A positive size field is seen by one exchange only, and not while somebody owns the
block: the block is on its way out. -/
theorem Linked.positive (linked : s.Linked place) (here : (s.pc t).Deallocating b)
    (positive : (s.heap.header b).mAllocSize > 0) :
    (∃ v, place b = .leaving v ∧ (v = t ∨ s.Pooled b)) ∧ s.attached b = true ∧
      ∃ room, s.heap.physical b = some room ∧ Routes (s.heap.header b).mAllocSize room := by
  obtain ⟨attached, unowned, called⟩ := linked.before here
  have block := linked.blocks b
  cases at_ : place b <;> rw [at_] at block
  case unallocated =>
    rw [block.2] at attached
    contradiction
  case listed =>
    have zero := block.2.2.1
    omega
  case taken =>
    have zero := block.2 attached
    omega
  case owned v => exact absurd at_ (unowned v)
  case leaving v =>
    refine ⟨⟨v, rfl, ?_⟩, attached, block.1⟩
    rcases called with mine | pooled
    · rw [at_] at mine
      exact .inl (Place.leaving.inj mine)
    · exact .inr pooled
  case returning =>
    have zero := block.2.1
    omega

section Moves
variable [DecidableEq T]

theorem Linked.moves (linked : s.Linked place) {next : Place T} {pc : Pc} (same : Elsewhere s s' b)
    (counters : s'.pc = Function.update s.pc t pc)
    (listedHere : ∀ pool, b ∈ s'.heap.mFreeList pool ↔ next = .listed pool)
    (listNodup : ∀ pool, (s'.heap.mFreeList pool).Nodup)
    (ownedHere : ∀ u, (u, b) ∈ s'.owned ↔ next = .owned u) (ownedNodup : s'.owned.Nodup)
    (block : s'.BlockOk b next) (mine : s'.ThreadOk (Function.update place b next) t pc)
    (exclusive : ∀ u, u ≠ t → place b ≠ .taken u ∧ place b ≠ .returning u)
    (before : ∀ u, u ≠ t → (s.pc u).Deallocating b → s.Before place u b →
      s'.Before (Function.update place b next) u b) :
    s'.Linked (Function.update place b next) where
  listed := fun pool c => by
    by_cases here : c = b
    · subst here
      rw [Function.update_self]
      exact listedHere pool
    · rw [Function.update_of_ne here, same.listed pool c here]
      exact linked.listed pool c
  listNodup := listNodup
  owned := fun u c => by
    by_cases here : c = b
    · subst here
      rw [Function.update_self]
      exact ownedHere u
    · rw [Function.update_of_ne here, same.owned u c here]
      exact linked.owned u c
  ownedNodup := ownedNodup
  blocks := fun c => by
    by_cases here : c = b
    · subst here
      rw [Function.update_self]
      exact block
    · rw [Function.update_of_ne here]
      exact same.block here (linked.blocks c)
  threads := fun u => by
    rw [counters]
    by_cases here : u = t
    · subst here
      rw [Function.update_self]
      exact mine
    · rw [Function.update_of_ne here]
      exact same.thread (linked.threads u) (exclusive u here).1 (exclusive u here).2 (before u here)

theorem Linked.stays (linked : s.Linked place) {pc : Pc}
    (counters : s'.pc = Function.update s.pc t pc) (physical : s'.heap.physical = s.heap.physical)
    (header : ∀ c, (s'.heap.header c).mAllocSize = (s.heap.header c).mAllocSize)
    (attached : s'.attached = s.attached) (lists : s'.heap.mFreeList = s.heap.mFreeList)
    (owned : s'.owned = s.owned) (mine : s.ThreadOk place t pc) : s'.Linked place := by
  have ok : ∀ u pc, s.ThreadOk place u pc → s'.ThreadOk place u pc := by
    intro u pc ok
    cases pc <;> simp only [ThreadOk, Before, Pooled, physical, attached] at ok ⊢ <;> exact ok
  refine ⟨fun pool c => ?_, fun pool => ?_, fun u c => ?_, ?_, fun c => ?_, fun u => ?_⟩
  · rw [lists]
    exact linked.listed pool c
  · rw [lists]
    exact linked.listNodup pool
  · rw [owned]
    exact linked.owned u c
  · rw [owned]
    exact linked.ownedNodup
  · have block := linked.blocks c
    cases at_ : place c <;> rw [at_] at block <;>
      simp only [BlockOk, physical, header c, attached] at block ⊢ <;> exact block
  · rw [counters]
    by_cases here : u = t
    · subst here
      rw [Function.update_self]
      exact ok u pc mine
    · rw [Function.update_of_ne here]
      exact ok u _ (linked.threads u)

theorem Linked.malloc (linked : s.Linked place) {room : Nat} {fresh : Fresh} {pc : Pc}
    (unused : s.heap.physical fresh.block = none)
    (mine : ({s with heap := s.heap.alignedMalloc room fresh.block fresh.garbage} : Threads T).ThreadOk
      (Function.update place fresh.block (.taken t)) t pc) :
    (({s with heap := s.heap.alignedMalloc room fresh.block fresh.garbage} : Threads T).goTo t pc).Linked
      (Function.update place fresh.block (.taken t)) := by
  obtain ⟨nobody, detached⟩ := linked.unused unused
  refine linked.moves (t := t) (b := fresh.block) ?_ rfl (fun pool => ?_) linked.listNodup (fun u => ?_)
    linked.ownedNodup ?_ mine (fun u _ => by simp [nobody]) (fun u _ _ before => ?_)
  · refine ⟨fun c other => Function.update_of_ne other _ _, fun c other => ?_, fun _ _ => rfl,
      fun _ _ _ => Iff.rfl, fun _ _ _ => Iff.rfl⟩
    simp only [goTo, Heap.alignedMalloc, Function.update_of_ne other]
  · simpa [goTo, Heap.alignedMalloc] using linked.unlisted nobody (by simp) pool
  · simpa [goTo] using linked.unowned nobody (by simp) u
  · refine ⟨by simp [goTo, Heap.alignedMalloc], fun attached => ?_⟩
    have detached' : (({s with heap := s.heap.alignedMalloc room fresh.block fresh.garbage} :
        Threads T).goTo t pc).attached fresh.block = false := detached
    rw [detached'] at attached
    contradiction
  · rw [before.1] at detached
    contradiction

theorem Linked.pop (linked : s.Linked place) {pool : Nat} {r : Int}
    (here : s.pc t = .popping pool r) (popped : (s.heap.interlockedPopEntrySList pool).1 = some b) :
    (({s with heap := (s.heap.interlockedPopEntrySList pool).2} : Threads T).goTo t
      (.checking b pool r)).Linked (Function.update place b (.taken t)) := by
  have knows := linked.threads t
  rw [here] at knows
  obtain ⟨rest, list⟩ : ∃ rest, s.heap.mFreeList pool = b :: rest := by
    unfold Heap.interlockedPopEntrySList at popped
    split at popped <;> try contradiction
    cases popped
    exact ⟨_, by assumption⟩
  have heap : (s.heap.interlockedPopEntrySList pool).2 =
      {s.heap with mFreeList := Function.update s.heap.mFreeList pool rest} := by
    simp [Heap.interlockedPopEntrySList, list]
  have nodup := linked.listNodup pool
  rw [list] at nodup
  obtain ⟨absent, nodup⟩ := List.nodup_cons.mp nodup
  have listed : place b = .listed pool := (linked.listed pool b).mp (by rw [list]; exact List.mem_cons_self)
  have block := linked.blocks b
  rw [listed] at block
  obtain ⟨physical, small, zero, attached⟩ := block
  rw [heap]
  refine linked.moves (t := t) (b := b) ⟨fun _ _ => rfl, fun _ _ => rfl, fun _ _ => rfl, fun other c differs => ?_,
    fun _ _ _ => Iff.rfl⟩ rfl (fun other => ?_) (fun other => ?_) (fun u => ?_) linked.ownedNodup
    ⟨by simp [goTo, physical], fun _ => zero⟩ ?_ (fun u _ => by simp [listed]) (fun u _ _ before => ?_)
  · by_cases same : other = pool
    · subst same
      simp only [goTo, Function.update_self, list, List.mem_cons, differs, false_or]
    · simp only [goTo, Function.update_of_ne same]
  · by_cases same : other = pool
    · subst same
      simpa [goTo] using absent
    · have elsewhere := linked.listed other b
      rw [listed] at elsewhere
      simp only [goTo, Function.update_of_ne same, elsewhere]
      simp [Ne.symm same]
  · by_cases same : other = pool
    · subst same
      simpa [goTo] using nodup
    · simpa [goTo, Function.update_of_ne same] using linked.listNodup other
  · simpa [goTo] using linked.unowned listed (by simp) u
  · exact ⟨Function.update_self _ _ _, physical, knows.2, attached⟩
  · exact ⟨before.1, by simp, .inr ⟨pool, small, physical⟩⟩

theorem Linked.attach (linked : s.Linked place) {r : Int} (here : s.pc t = .attaching b r)
    (quiet : ∀ u, ¬ (s.pc u).Deallocating b) :
    (({s with
        heap := s.heap.attachMemAllocInfo b r
        attached := Function.update s.attached b true
        owned := (t, b) :: s.owned} : Threads T).goTo t .idle).Linked
      (Function.update place b (.owned t)) := by
  have knows := linked.threads t
  rw [here] at knows
  obtain ⟨taken, room, physical, routes⟩ := knows
  have unowned := linked.unowned taken (by simp)
  refine linked.moves (t := t) (b := b) ?_ rfl (fun pool => ?_) linked.listNodup (fun u => ?_)
    (List.nodup_cons.mpr ⟨unowned t, linked.ownedNodup⟩) ?_ trivial (fun u other => ?_)
    (fun u _ deallocating => absurd deallocating (quiet u))
  · refine ⟨fun _ _ => rfl, fun c other => ?_, fun c other => Function.update_of_ne other _ _,
      fun _ _ _ => Iff.rfl, fun u c other => ?_⟩
    · simp only [goTo, Heap.attachMemAllocInfo, Function.update_of_ne other]
    · simp [goTo, other]
  · simpa [goTo, Heap.attachMemAllocInfo] using linked.unlisted taken (by simp) pool
  · have none := unowned u
    simp only [goTo, List.mem_cons, none, or_false, Prod.mk.injEq, and_true]
    exact ⟨fun same => same ▸ rfl, fun same => (Place.owned.inj same).symm⟩
  · refine ⟨⟨room, physical, ?_⟩, Function.update_self _ _ _⟩
    simpa [goTo, Heap.attachMemAllocInfo] using routes
  · rw [taken]
    exact ⟨fun same => other (Place.taken.inj same).symm, by simp⟩

theorem Linked.givenUp (linked : s.Linked place) (owns : (t, b) ∈ s.owned) (v : T) :
    (v, b) ∉ s.owned.erase (t, b) := by
  intro mem
  have owned := (linked.owned t b).mp owns
  have same := (linked.owned v b).mp (List.mem_of_mem_erase mem)
  rw [owned] at same
  cases same
  exact linked.ownedNodup.not_mem_erase mem

theorem Linked.give (linked : s.Linked place) (owns : (t, b) ∈ s.owned) :
    ({s with owned := (u, b) :: s.owned.erase (t, b)} : Threads T).Linked
      (Function.update place b (.owned u)) := by
  have owned := (linked.owned t b).mp owns
  have block := linked.blocks b
  rw [owned] at block
  have left := linked.givenUp owns
  have same : Elsewhere s {s with owned := (u, b) :: s.owned.erase (t, b)} b :=
    ⟨fun _ _ => rfl, fun _ _ => rfl, fun _ _ => rfl, fun _ _ _ => Iff.rfl, fun v c other => by
      simp [other, List.mem_erase_of_ne]⟩
  have untouched : ∀ v, place b ≠ .taken v ∧ place b ≠ .returning v := fun v => by simp [owned]
  have quiet : ∀ v, s.Before place v b →
      ({s with owned := (u, b) :: s.owned.erase (t, b)} : Threads T).Before
        (Function.update place b (.owned u)) v b := fun v before => absurd owned (before.2.1 t)
  refine linked.moves (t := t) same (Function.update_eq_self t s.pc).symm (fun pool => ?_)
    linked.listNodup (fun v => ?_) (List.nodup_cons.mpr ⟨left u, linked.ownedNodup.erase _⟩) block
    (same.thread (linked.threads t) (untouched t).1 (untouched t).2 fun _ => quiet t)
    (fun v _ => untouched v) (fun v _ _ => quiet v)
  · simpa using linked.unlisted owned (by simp) pool
  · have none := left v
    simp only [List.mem_cons, none, or_false, Prod.mk.injEq, and_true]
    exact ⟨fun same => same ▸ rfl, fun same => (Place.owned.inj same).symm⟩

theorem Linked.deallocate (linked : s.Linked place) (owns : (t, b) ∈ s.owned) (extraInfo : Int) :
    (({s with owned := s.owned.erase (t, b)} : Threads T).goTo t (.writingExtra b extraInfo)).Linked
      (Function.update place b (.leaving t)) := by
  have owned := (linked.owned t b).mp owns
  have block := linked.blocks b
  rw [owned] at block
  have left := linked.givenUp owns
  refine linked.moves (t := t) ⟨fun _ _ => rfl, fun _ _ => rfl, fun _ _ => rfl, fun _ _ _ => Iff.rfl,
    fun v c other => by simp [goTo, other, List.mem_erase_of_ne]⟩ rfl (fun pool => ?_)
    linked.listNodup (fun v => ?_) (linked.ownedNodup.erase _) block
    ⟨block.2, by simp, .inl (Function.update_self _ _ _)⟩ (fun v _ => by simp [owned])
    (fun v _ _ before => absurd owned (before.2.1 t))
  · simpa [goTo] using linked.unlisted owned (by simp) pool
  · have none := left v
    simp [goTo, none]

theorem Linked.exchange (linked : s.Linked place) (here : s.pc t = .exchanging b)
    (positive : (s.heap.exchangeAllocSize b).1 > 0) {pc : Pc}
    (mine : ({s with heap := (s.heap.exchangeAllocSize b).2} : Threads T).ThreadOk
      (Function.update place b (.returning t)) t pc) :
    (({s with heap := (s.heap.exchangeAllocSize b).2} : Threads T).goTo t pc).Linked
      (Function.update place b (.returning t)) := by
  obtain ⟨⟨v, leaving, mineOrPooled⟩, attached, room, physical, _⟩ := linked.positive (by rw [here]; rfl) positive
  refine linked.moves (t := t) ⟨fun _ _ => rfl, fun c other => ?_, fun _ _ => rfl, fun _ _ _ => Iff.rfl,
    fun _ _ _ => Iff.rfl⟩ rfl (fun pool => ?_) linked.listNodup (fun u => ?_) linked.ownedNodup
    ⟨by simp [goTo, Heap.exchangeAllocSize, physical], by simp [goTo, Heap.exchangeAllocSize], attached⟩ mine
    (fun u _ => by simp [leaving]) (fun u other _ before => ⟨attached, by simp, .inr ?_⟩)
  · simp only [goTo, Heap.exchangeAllocSize, Function.update_of_ne other]
  · simpa [goTo, Heap.exchangeAllocSize] using linked.unlisted leaving (by simp) pool
  · simpa [goTo] using linked.unowned leaving (by simp) u
  · rcases before.2.2 with his | pooled
    · rw [leaving] at his
      cases his
      exact mineOrPooled.resolve_left other
    · exact pooled

theorem Linked.push (linked : s.Linked place) {pool : Nat} (here : s.pc t = .pushing b pool) :
    (({s with heap := s.heap.interlockedPushEntrySList pool b} : Threads T).goTo t (.uncounting pool)).Linked
      (Function.update place b (.listed pool)) := by
  have knows := linked.threads t
  rw [here] at knows
  obtain ⟨returning, physical, small⟩ := knows
  have block := linked.blocks b
  rw [returning] at block
  have absent := linked.unlisted returning (by simp)
  refine linked.moves (t := t) ⟨fun _ _ => rfl, fun _ _ => rfl, fun _ _ => rfl, fun other c differs => ?_,
    fun _ _ _ => Iff.rfl⟩ rfl (fun other => ?_) (fun other => ?_) (fun u => ?_) linked.ownedNodup
    ⟨physical, small, block.2.1, block.2.2⟩ trivial (fun u other => ?_)
    (fun u _ _ before => ⟨before.1, by simp, .inr ⟨pool, small, physical⟩⟩)
  · by_cases same : other = pool
    · subst same
      simp [goTo, Heap.interlockedPushEntrySList, differs]
    · simp only [goTo, Heap.interlockedPushEntrySList, Function.update_of_ne same]
  · by_cases same : other = pool
    · subst same
      simp [goTo, Heap.interlockedPushEntrySList]
    · simp only [goTo, Heap.interlockedPushEntrySList, Function.update_of_ne same]
      simp [absent other, Ne.symm same]
  · by_cases same : other = pool
    · subst same
      simpa [goTo, Heap.interlockedPushEntrySList] using ⟨absent other, linked.listNodup other⟩
    · simpa [goTo, Heap.interlockedPushEntrySList, Function.update_of_ne same] using linked.listNodup other
  · simpa [goTo] using linked.unowned returning (by simp) u
  · rw [returning]
    exact ⟨by simp, fun same => other (Place.returning.inj same).symm⟩

theorem Linked.free (linked : s.Linked place) (here : s.pc t = .freeing b) :
    (({s with
        heap := s.heap.alignedFree b
        attached := Function.update s.attached b false} : Threads T).goTo t .idle).Linked
      (Function.update place b .unallocated) := by
  have knows := linked.threads t
  rw [here] at knows
  obtain ⟨returning, room, physical, large⟩ := knows
  refine linked.moves (t := t) ⟨fun c other => Function.update_of_ne other _ _, fun _ _ => rfl,
    fun c other => Function.update_of_ne other _ _, fun _ _ _ => Iff.rfl, fun _ _ _ => Iff.rfl⟩ rfl
    (fun pool => ?_) linked.listNodup (fun u => ?_) linked.ownedNodup
    ⟨Function.update_self _ _ _, Function.update_self _ _ _⟩ trivial (fun u other => ?_)
    (fun u _ _ before => ?_)
  · simpa [goTo, Heap.alignedFree] using linked.unlisted returning (by simp) pool
  · simpa [goTo] using linked.unowned returning (by simp) u
  · rw [returning]
    exact ⟨by simp, fun same => other (Place.returning.inj same).symm⟩
  · -- a repeated Deallocate is one of a pooled block, and this one is not
    rcases before.2.2 with leaving | ⟨pool, small, pooled⟩
    · rw [returning] at leaving
      contradiction
    · rw [physical] at pooled
      cases pooled
      unfold maxAllocSize at large
      omega

theorem stepLinked (s : Threads T) (t : T) (s' : Threads T) (linked : ∃ place, s.Linked place)
    (step : Step h s t s') : ∃ place, s'.Linked place := by
  obtain ⟨place, linked⟩ := linked
  have knows := linked.threads t
  cases step with
  | callBig size idle large => exact ⟨place, linked.stays rfl rfl (fun _ => rfl) rfl rfl rfl large⟩
  | callSmall size pool idle small entry =>
    exact ⟨place, linked.stays rfl rfl (fun _ => rfl) rfl rfl rfl ⟨(poolAtOk entry).1, entry⟩⟩
  | popNull pool r here null =>
    rw [here] at knows
    have same : (s.heap.interlockedPopEntrySList pool).2 = s.heap := by
      unfold Heap.interlockedPopEntrySList at null ⊢
      split at null <;> trivial
    rw [same]
    exact ⟨place, linked.stays rfl rfl (fun _ => rfl) rfl rfl rfl knows⟩
  | pop pool r b here popped => exact ⟨_, linked.pop here popped⟩
  | mallocPool pool r fresh here unused =>
    rw [here] at knows
    exact ⟨_, linked.malloc unused
      ⟨Function.update_self _ _ _, Function.update_self _ _ _, knows.2⟩⟩
  | check b pool r here zero =>
    rw [here] at knows
    exact ⟨place, linked.stays rfl rfl (fun _ => rfl) rfl rfl rfl ⟨knows.1, knows.2.1, knows.2.2.1⟩⟩
  | count b pool r here =>
    rw [here] at knows
    obtain ⟨taken, physical, entry⟩ := knows
    exact ⟨place, linked.stays rfl rfl (fun _ => rfl) rfl rfl rfl
      ⟨taken, pool, physical, .inl ⟨(poolAtOk entry).1, entry⟩⟩⟩
  | mallocBig r fresh here unused =>
    rw [here] at knows
    have large : (maxAllocSize : Int) < r := knows
    exact ⟨_, linked.malloc unused ⟨Function.update_self _ _ _, _, Function.update_self _ _ _,
      .inr ⟨large, by omega⟩⟩⟩
  | attach b r here quiet => exact ⟨_, linked.attach here quiet⟩
  | give u b owns => exact ⟨_, linked.give owns⟩
  | deallocate b extraInfo idle owns => exact ⟨_, linked.deallocate owns extraInfo⟩
  | deallocateAgain b extraInfo idle returned pooled unowned =>
    exact ⟨place, linked.stays rfl rfl (fun _ => rfl) rfl rfl rfl
      ⟨returned, fun u owned => unowned u ((linked.owned u b).mpr owned), .inr pooled⟩⟩
  | writeExtra b extraInfo here =>
    rw [here] at knows
    refine ⟨place, linked.stays rfl rfl (fun c => ?_) rfl rfl rfl knows⟩
    by_cases same : c = b
    · subst same
      simp [goTo, Heap.setExtraInfo]
    · simp [goTo, Heap.setExtraInfo, same]
  | exchange b pool here positive small entry =>
    obtain ⟨_, _, room, physical, routes⟩ := linked.positive (by rw [here]; rfl) positive
    have pooled : room = pool := by
      rcases routes with ⟨_, entry'⟩ | ⟨large, _⟩
      · have both := entry'.symm.trans entry
        cases both
        rfl
      · exact absurd large small
    subst pooled
    exact ⟨_, linked.exchange here positive
      ⟨Function.update_self _ _ _, physical, (poolAtOk entry).2.2.1⟩⟩
  | exchangeBig b here positive large =>
    obtain ⟨_, _, room, physical, routes⟩ := linked.positive (by rw [here]; rfl) positive
    have big : maxAllocSize < room := by
      have fits := routes.fits.2
      have large' : (s.heap.header b).mAllocSize > maxAllocSize := large
      omega
    exact ⟨_, linked.exchange here positive ⟨Function.update_self _ _ _, room, physical, big⟩⟩
  | push b pool here => exact ⟨_, linked.push here⟩
  | uncount pool here => exact ⟨place, linked.stays rfl rfl (fun _ => rfl) rfl rfl rfl trivial⟩
  | free b here => exact ⟨_, linked.free here⟩

theorem neverHandedOutTwice (header : Nat → MemAllocInfo) (s : Threads T)
    (reach : Reachable (Step h) (initial header) s) :
    (s.owned.Nodup ∧ ∀ t u b, (t, b) ∈ s.owned → (u, b) ∈ s.owned → t = u) ∧
    (∀ t b pool, (t, b) ∈ s.owned → b ∉ s.heap.mFreeList pool) ∧
    (∀ pool, (s.heap.mFreeList pool).Nodup) ∧
    (∀ pool other b, b ∈ s.heap.mFreeList pool → b ∈ s.heap.mFreeList other → pool = other) ∧
    (∀ pool, ∀ b ∈ s.heap.mFreeList pool,
      (s.heap.header b).mAllocSize = 0 ∧ s.heap.physical b = some pool) ∧
    (∀ t b pool r, s.pc t = .checking b pool r → (s.heap.header b).mAllocSize = 0) ∧
    (∀ t b pool, s.pc t = .pushing b pool → s.heap.physical b = some pool) ∧
    (∀ t b, (s.pc t).Deallocating b → (s.heap.header b).mAllocSize > 0 →
      (∀ pool, b ∉ s.heap.mFreeList pool) ∧ ∀ u, (u, b) ∉ s.owned) := by
  obtain ⟨place, linked⟩ := reach.invariant (I := fun s => ∃ place, s.Linked place) stepLinked
    ⟨_, initialLinked header⟩
  refine ⟨⟨linked.ownedNodup, fun t u b left right => ?_⟩, fun t b pool owns mem => ?_, linked.listNodup,
    fun pool other b left right => ?_, fun pool b mem => ?_, fun t b pool r here => ?_,
    fun t b pool here => ?_, fun t b here positive => ?_⟩
  · have first := (linked.owned t b).mp left
    rw [(linked.owned u b).mp right] at first
    exact (Place.owned.inj first).symm
  · exact linked.unlisted ((linked.owned t b).mp owns) (by simp) pool mem
  · have first := (linked.listed pool b).mp left
    rw [(linked.listed other b).mp right] at first
    exact (Place.listed.inj first).symm
  · have block := linked.blocks b
    rw [(linked.listed pool b).mp mem] at block
    exact ⟨block.2.2.1, block.1⟩
  · have knows := linked.threads t
    rw [here] at knows
    have block := linked.blocks b
    rw [knows.1] at block
    exact block.2 knows.2.2.2
  · have knows := linked.threads t
    rw [here] at knows
    exact knows.2.1
  · obtain ⟨⟨v, leaving, _⟩, _⟩ := linked.positive here positive
    exact ⟨linked.unlisted leaving (by simp), linked.unowned leaving (by simp)⟩

end Moves

theorem recycledRun : ∃ (moves : List (Runs.Move (Threads Bool) Bool)) (s : Threads Bool),
    Runs.Run (Step 16) (initial fun _ => ⟨7, 7⟩) moves s ∧ moves.length = 15 ∧ s.owned = [(true, 4096)] ∧
    (∀ t, s.pc t = .idle) ∧ s.heap.physical 4096 = some 128 ∧ ∀ m ∈ moves, m.after.owned.length ≤ 1 := by
  have entry : poolAt 116 = .ok 128 := by decide +kernel
  exact ⟨_, _, .more (.callSmall _ false 100 128 rfl (by decide) entry)
    (.more (.popNull _ false 128 _ rfl rfl)
    (.more (.mallocPool _ false 128 _ ⟨4096, ⟨5, 5⟩⟩ rfl rfl)
    (.more (.count _ false 4096 128 _ rfl)
    (.more (.attach _ false 4096 _ rfl (by simp [goTo, initial, Pc.Deallocating]))
    (.more (.deallocate _ false 4096 1 rfl List.mem_cons_self)
    (.more (.writeExtra _ false 4096 1 rfl)
    (.more (.exchange _ false 4096 128 rfl (by decide) (by decide) entry)
    (.more (.push _ false 4096 128 rfl)
    (.more (.uncount _ false 128 rfl)
    (.more (.callSmall _ true 100 128 rfl (by decide) entry)
    (.more (.pop _ true 128 _ 4096 rfl rfl)
    (.more (.check _ true 4096 128 _ rfl rfl)
    (.more (.count _ true 4096 128 _ rfl)
    (.more (.attach _ true 4096 _ rfl (by simp [goTo, initial, Pc.Deallocating]))
    (.done _))))))))))))))), rfl, rfl, by decide, rfl, by decide⟩

theorem neverHandedOutTwiceRecycled : ∃ s : Threads Bool,
    Reachable (Step 16) (initial fun _ => ⟨7, 7⟩) s ∧ s.owned = [(true, 4096)] ∧
    ∀ pool, 4096 ∉ s.heap.mFreeList pool := by
  obtain ⟨moves, s, run, _, owned, _⟩ := recycledRun
  refine ⟨s, ⟨moves, run⟩, owned, fun pool => ?_⟩
  exact (neverHandedOutTwice (fun _ => ⟨7, 7⟩) s ⟨moves, run⟩).2.1 true 4096 pool
    (owned ▸ List.mem_cons_self)

end Threads
end IocpNetwork.MemoryPool
