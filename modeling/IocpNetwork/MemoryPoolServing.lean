import IocpNetwork.MemoryPoolTable
import IocpNetwork.Lib.Runs
import IocpNetwork.Lib.Fallible

/-! Requests served by a MemoryPool over any sequence of Allocate and valid Deallocate
calls. A recycled block sits on the list of the pool whose size it has, whatever sizes
it served before. -/
namespace IocpNetwork.MemoryPool
open MachineWords (signedExact)
open Runs (Reachable)
open Heap (Fresh)

/- `live` lists the pointers returned by Allocate and not yet given to Deallocate. -/
structure Client where
  heap : Heap
  live : List Nat

namespace Client
variable {h : Nat} {s : Client} {m : Heap}

def initial (header : Nat → MemAllocInfo) : Client := ⟨Heap.initial header, []⟩

inductive Action where
  | allocate (size : Int) (fresh : Fresh)
  | deallocate (ptr : Nat) (extraInfo : Int)
  deriving DecidableEq, Repr

inductive Step (h : Nat) : Client → Action → Client → Prop where
  | allocate (s : Client) (size : Int) (fresh : Fresh) (unused : s.heap.physical fresh.block = none)
      (ptr : Nat) (m : Heap) (ran : s.heap.allocate h size fresh = .ok (ptr, m)) :
      Step h s (.allocate size fresh) ⟨m, ptr :: s.live⟩
  | deallocate (s : Client) (ptr : Nat) (extraInfo : Int) (live : ptr ∈ s.live) (m : Heap)
      (ran : s.heap.deallocate h ptr extraInfo = .ok m) :
      Step h s (.deallocate ptr extraInfo) ⟨m, s.live.erase ptr⟩

structure Sound (h : Nat) (s : Client) : Prop where
  listed : ∀ pool, ∀ b ∈ s.heap.mFreeList pool,
    s.heap.physical b = some pool ∧ (s.heap.header b).mAllocSize = 0
  listNodup : ∀ pool, (s.heap.mFreeList pool).Nodup
  inUse : ∀ ptr ∈ s.live, ∃ b room, ptr = b + h ∧ s.heap.physical b = some room ∧
    Routes (s.heap.header b).mAllocSize room
  liveNodup : s.live.Nodup

theorem initialSound (header : Nat → MemAllocInfo) : Sound h (initial header) where
  listed := fun _ _ mem => absurd mem List.not_mem_nil
  listNodup := fun _ => List.nodup_nil
  inUse := fun _ mem => absurd mem List.not_mem_nil
  liveNodup := List.nodup_nil

structure Free (h : Nat) (s : Client) (b room : Nat) : Prop where
  physical : s.heap.physical b = some room
  unlisted : ∀ pool, b ∉ s.heap.mFreeList pool
  unused : b + h ∉ s.live

theorem Sound.malloc (sound : Sound h s) {fresh : Fresh} (unused : s.heap.physical fresh.block = none)
    (room : Nat) :
    let t : Client := {s with heap := s.heap.alignedMalloc room fresh.block fresh.garbage}
    Sound h t ∧ Free h t fresh.block room := by
  have unlisted : ∀ pool, fresh.block ∉ s.heap.mFreeList pool := fun pool mem => by
    rw [(sound.listed pool _ mem).1] at unused
    contradiction
  have notLive : fresh.block + h ∉ s.live := fun mem => by
    obtain ⟨b, room, same, physical, _⟩ := sound.inUse _ mem
    have block : fresh.block = b := by omega
    rw [block, physical] at unused
    contradiction
  refine ⟨⟨fun pool b mem => ?_, sound.listNodup, fun ptr mem => ?_, sound.liveNodup⟩,
    ⟨Function.update_self _ _ _, unlisted, notLive⟩⟩
  · have different : b ≠ fresh.block := fun same => unlisted pool (same ▸ mem)
    simp only [Heap.alignedMalloc, Function.update_of_ne different]
    exact sound.listed pool b mem
  · obtain ⟨b, room, rfl, physical, routes⟩ := sound.inUse ptr mem
    have different : b ≠ fresh.block := fun same => notLive (same ▸ mem)
    refine ⟨b, room, rfl, ?_⟩
    simp only [Heap.alignedMalloc, Function.update_of_ne different]
    exact ⟨physical, routes⟩

theorem Sound.countAlloc (sound : Sound h s) (pool : Nat) (change : Int) :
    Sound h {s with heap := s.heap.countAlloc pool change} :=
  ⟨sound.listed, sound.listNodup, sound.inUse, sound.liveNodup⟩

theorem Sound.unlist (sound : Sound h s) {pool b : Nat} {rest : List Nat}
    (list : s.heap.mFreeList pool = b :: rest) :
    let t : Client := {s with heap := {s.heap with mFreeList := Function.update s.heap.mFreeList pool rest}}
    Sound h t ∧ Free h t b pool := by
  have nodup := sound.listNodup pool
  rw [list] at nodup
  obtain ⟨absent, nodup⟩ := List.nodup_cons.mp nodup
  obtain ⟨physical, zero⟩ := sound.listed pool b (by rw [list]; exact List.mem_cons_self)
  refine ⟨⟨fun other c mem => ?_, fun other => ?_, sound.inUse, sound.liveNodup⟩,
    ⟨physical, fun other mem => ?_, fun mem => ?_⟩⟩
  · by_cases here : other = pool
    · subst here
      simp only [Function.update_self] at mem
      exact sound.listed other c (by rw [list]; exact List.mem_cons_of_mem _ mem)
    · simp only [Function.update_of_ne here] at mem
      exact sound.listed other c mem
  · by_cases here : other = pool
    · subst here
      simp only [Function.update_self]
      exact nodup
    · simp only [Function.update_of_ne here]
      exact sound.listNodup other
  · by_cases here : other = pool
    · subst here
      simp only [Function.update_self] at mem
      exact absent mem
    · simp only [Function.update_of_ne here] at mem
      have elsewhere := (sound.listed other b mem).1
      rw [physical] at elsewhere
      exact here (Option.some.inj elsewhere).symm
  · obtain ⟨c, room, same, _, routes⟩ := sound.inUse _ mem
    have block : c = b := by omega
    have positive := routes.fits.1
    rw [block, zero] at positive
    exact absurd positive (by decide)

theorem Sound.pop (sound : Sound h s) {pool b : Nat} {fresh : Fresh}
    (unused : s.heap.physical fresh.block = none) (ran : s.heap.pop pool fresh = .ok (b, m)) :
    Sound h {s with heap := m} ∧ Free h {s with heap := m} b pool := by
  unfold Heap.pop Heap.interlockedPopEntrySList at ran
  cases list : s.heap.mFreeList pool with
  | nil =>
    simp only [list] at ran
    cases ran
    obtain ⟨sound', free⟩ := sound.malloc unused pool
    exact ⟨sound'.countAlloc pool 1, free.physical, free.unlisted, free.unused⟩
  | cons c rest =>
    simp only [list] at ran
    split at ran <;> try contradiction
    cases ran
    obtain ⟨sound', free⟩ := sound.unlist list
    exact ⟨sound'.countAlloc pool 1, free.physical, free.unlisted, free.unused⟩

theorem Sound.popSucceeds (sound : Sound h s) (pool : Nat) (fresh : Fresh) :
    ∃ b m, s.heap.pop pool fresh = .ok (b, m) := by
  unfold Heap.pop Heap.interlockedPopEntrySList
  cases list : s.heap.mFreeList pool with
  | nil => exact ⟨_, _, rfl⟩
  | cons c rest =>
    have zero := (sound.listed pool c (by rw [list]; exact List.mem_cons_self)).2
    exact ⟨c, _, if_pos zero⟩

theorem Sound.attach (sound : Sound h s) {b room : Nat} (free : Free h s b room) {r : Int}
    (routes : Routes r room) :
    Sound h ⟨s.heap.attachMemAllocInfo b r, (b + h) :: s.live⟩ := by
  refine ⟨fun pool c mem => ?_, sound.listNodup, fun ptr mem => ?_,
    List.nodup_cons.mpr ⟨free.unused, sound.liveNodup⟩⟩
  · have different : c ≠ b := fun same => free.unlisted pool (same ▸ mem)
    simp only [Heap.attachMemAllocInfo, Function.update_of_ne different]
    exact sound.listed pool c mem
  · rcases List.mem_cons.mp mem with rfl | old
    · refine ⟨b, room, rfl, free.physical, ?_⟩
      simp only [Heap.attachMemAllocInfo, Function.update_self]
      exact routes
    · obtain ⟨c, room', rfl, physical, routes'⟩ := sound.inUse ptr old
      have different : c ≠ b := fun same => free.unused (same ▸ old)
      refine ⟨c, room', rfl, physical, ?_⟩
      simp only [Heap.attachMemAllocInfo, Function.update_of_ne different]
      exact routes'

def Usable (h : Nat) (m : Heap) (ptr : Nat) (size : Int) : Prop :=
  ∃ b room, ptr = b + h ∧ m.physical b = some room ∧ size + h ≤ room

theorem Usable.room {b room : Nat} {size : Int} (usable : Usable h m (b + h) size)
    (physical : m.physical b = some room) : size + h ≤ room := by
  obtain ⟨b', room', same, physical', enough⟩ := usable
  have block : b' = b := by omega
  rw [block, physical] at physical'
  cases physical'
  exact enough

theorem Sound.allocate (sound : Sound h s) {size : Int} {fresh : Fresh}
    (unused : s.heap.physical fresh.block = none) {ptr : Nat}
    (ran : s.heap.allocate h size fresh = .ok (ptr, m)) :
    Sound h ⟨m, ptr :: s.live⟩ ∧
      ∃ b room, ptr = b + h ∧ m.physical b = some room ∧ Routes (Heap.realAllocSize h size) room := by
  unfold Heap.allocate at ran
  dsimp only at ran
  split at ran
  · rename_i large
    cases ran
    unfold maxAllocSize at large
    obtain ⟨sound', free⟩ := sound.malloc unused (Heap.realAllocSize h size).toNat
    have routes : Routes (Heap.realAllocSize h size) (Heap.realAllocSize h size).toNat :=
      .inr ⟨large, by omega⟩
    exact ⟨sound'.attach free routes, _, _, rfl, free.physical, routes⟩
  · obtain ⟨pool, entry, rest⟩ := Fallible.bindOk ran
    obtain ⟨⟨b, m'⟩, popped, last⟩ := Fallible.bindOk rest
    cases last
    obtain ⟨sound', free⟩ := sound.pop unused popped
    have routes : Routes (Heap.realAllocSize h size) pool := .inl ⟨(poolAtOk entry).1, entry⟩
    exact ⟨sound'.attach free routes, _, _, rfl, free.physical, routes⟩

theorem allocatePool {size : Int} {fresh : Fresh} {pool b : Nat} {m' : Heap}
    (small : Heap.realAllocSize h size ≤ maxAllocSize) (entry : poolAt (Heap.realAllocSize h size) = .ok pool)
    (popped : m.pop pool fresh = .ok (b, m')) : m.allocate h size fresh =
      .ok (b + h, m'.attachMemAllocInfo b (Heap.realAllocSize h size)) := by
  unfold Heap.allocate
  rw [if_neg (Int.not_lt.mpr small), entry]
  simp only [bind, Except.bind, popped]

theorem Sound.allocateRuns (sound : Sound h s) (size : Int) (fresh : Fresh)
    (served : (0 < Heap.realAllocSize h size ∧ Heap.realAllocSize h size ≤ 3840) ∨
      4096 < Heap.realAllocSize h size) :
    ∃ ptr m, s.heap.allocate h size fresh = .ok (ptr, m) := by
  by_cases large : Heap.realAllocSize h size > maxAllocSize
  · exact ⟨_, _, if_pos large⟩
  · have small := Int.not_lt.mp large
    unfold maxAllocSize at large
    obtain ⟨pool, entry⟩ := (poolAtNull (r := Heap.realAllocSize h size) (by omega) small).mpr (by omega)
    obtain ⟨b, m, popped⟩ := sound.popSucceeds pool fresh
    exact ⟨_, _, allocatePool small entry popped⟩

theorem Sound.exchanged (sound : Sound h s) {b : Nat} (live : b + h ∈ s.live) (extraInfo : Int) :
    let m := ((s.heap.setExtraInfo b extraInfo).exchangeAllocSize b).2
    ((s.heap.setExtraInfo b extraInfo).exchangeAllocSize b).1 = (s.heap.header b).mAllocSize ∧
    (∃ room, s.heap.physical b = some room ∧ Routes (s.heap.header b).mAllocSize room) ∧
    Sound h ⟨m, s.live.erase (b + h)⟩ ∧ (m.header b).mAllocSize = 0 ∧
    (∀ pool, b ∉ s.heap.mFreeList pool) := by
  obtain ⟨c, room, same, physical, routes⟩ := sound.inUse _ live
  have block : c = b := by omega
  subst block
  have positive := routes.fits.1
  have unlisted : ∀ pool, c ∉ s.heap.mFreeList pool := fun pool mem => by
    have zero := (sound.listed pool c mem).2
    omega
  have others : ∀ d, d ≠ c →
      ((s.heap.setExtraInfo c extraInfo).exchangeAllocSize c).2.header d = s.heap.header d := by
    intro d different
    simp only [Heap.exchangeAllocSize, Heap.setExtraInfo, Function.update_of_ne different]
  refine ⟨by simp [Heap.exchangeAllocSize, Heap.setExtraInfo], ⟨room, physical, routes⟩,
    ⟨fun pool d mem => ?_, sound.listNodup, fun ptr mem => ?_, sound.liveNodup.erase _⟩,
    by simp [Heap.exchangeAllocSize], unlisted⟩
  · have different : d ≠ c := fun same => unlisted pool (same ▸ mem)
    rw [others d different]
    exact sound.listed pool d mem
  · obtain ⟨d, room', rfl, physical', routes'⟩ := sound.inUse ptr (List.mem_of_mem_erase mem)
    have different : d ≠ c := fun same => sound.liveNodup.not_mem_erase (same ▸ mem)
    refine ⟨d, room', rfl, physical', ?_⟩
    rw [others d different]
    exact routes'

theorem Sound.free (sound : Sound h s) {b : Nat} (unlisted : ∀ pool, b ∉ s.heap.mFreeList pool)
    (unused : b + h ∉ s.live) : Sound h {s with heap := s.heap.alignedFree b} := by
  refine ⟨fun pool c mem => ?_, sound.listNodup, fun ptr mem => ?_, sound.liveNodup⟩
  · have different : c ≠ b := fun same => unlisted pool (same ▸ mem)
    simp only [Heap.alignedFree, Function.update_of_ne different]
    exact sound.listed pool c mem
  · obtain ⟨c, room, rfl, physical, routes⟩ := sound.inUse ptr mem
    have different : c ≠ b := fun same => unused (same ▸ mem)
    refine ⟨c, room, rfl, ?_, routes⟩
    simp only [Heap.alignedFree, Function.update_of_ne different]
    exact physical

theorem Sound.push (sound : Sound h s) {b pool : Nat} (physical : s.heap.physical b = some pool)
    (zero : (s.heap.header b).mAllocSize = 0) (unlisted : ∀ pool, b ∉ s.heap.mFreeList pool) :
    Sound h {s with heap := s.heap.push pool b} := by
  refine ⟨fun other c mem => ?_, fun other => ?_, sound.inUse, sound.liveNodup⟩
  · simp only [Heap.push, Heap.countAlloc, Heap.interlockedPushEntrySList] at mem ⊢
    by_cases here : other = pool
    · subst here
      rw [Function.update_self] at mem
      rcases List.mem_cons.mp mem with rfl | old
      · exact ⟨physical, zero⟩
      · exact sound.listed other c old
    · rw [Function.update_of_ne here] at mem
      exact sound.listed other c mem
  · simp only [Heap.push, Heap.countAlloc, Heap.interlockedPushEntrySList]
    by_cases here : other = pool
    · subst here
      rw [Function.update_self]
      exact List.nodup_cons.mpr ⟨unlisted other, sound.listNodup other⟩
    · rw [Function.update_of_ne here]
      exact sound.listNodup other

theorem deallocatePool {ptr pool : Nat} (extraInfo : Int) (positive : 0 < (m.header (ptr - h)).mAllocSize)
    (entry : poolAt (m.header (ptr - h)).mAllocSize = .ok pool) : m.deallocate h ptr extraInfo =
      .ok (((m.setExtraInfo (ptr - h) extraInfo).exchangeAllocSize (ptr - h)).2.push pool (ptr - h)) := by
  have same : ((m.setExtraInfo (ptr - h) extraInfo).exchangeAllocSize (ptr - h)).1 =
      (m.header (ptr - h)).mAllocSize := by
    simp only [Heap.exchangeAllocSize, Heap.setExtraInfo, Function.update_self]
  have small : ¬ (m.header (ptr - h)).mAllocSize > maxAllocSize := by
    obtain ⟨_, low, high, _⟩ := poolAtOk entry
    unfold maxAllocSize
    omega
  unfold Heap.deallocate
  dsimp only
  rw [same, if_pos positive, if_neg small, entry]
  rfl

theorem Sound.deallocate (sound : Sound h s) {ptr : Nat} {extraInfo : Int} (live : ptr ∈ s.live)
    (ran : s.heap.deallocate h ptr extraInfo = .ok m) : Sound h ⟨m, s.live.erase ptr⟩ := by
  obtain ⟨b, room, rfl, _⟩ := sound.inUse ptr live
  obtain ⟨same, ⟨room, physical, routes⟩, sound', zero, unlisted⟩ := sound.exchanged live extraInfo
  have unused : b + h ∉ s.live.erase (b + h) := sound.liveNodup.not_mem_erase
  have positive := routes.fits.1
  rcases routes with ⟨_, entry⟩ | ⟨large, _⟩
  · rw [deallocatePool extraInfo (by rwa [Nat.add_sub_cancel]) (by rwa [Nat.add_sub_cancel]),
      Nat.add_sub_cancel] at ran
    cases ran
    exact sound'.push physical zero unlisted
  · unfold Heap.deallocate at ran
    simp only [Nat.add_sub_cancel, same] at ran
    rw [if_pos positive, if_pos large] at ran
    cases ran
    exact sound'.free unlisted unused

theorem stepSound (s : Client) (a : Action) (t : Client) (sound : Sound h s) (step : Step h s a t) :
    Sound h t := by
  cases step with
  | allocate size fresh unused ptr m ran => exact (sound.allocate unused ran).1
  | deallocate ptr extraInfo live m ran => exact sound.deallocate live ran

theorem allocateServes (positive : 0 < h) (header : Nat → MemAllocInfo) (s : Client)
    (reach : Reachable (Step h) (initial header) s) (size : Int) (nonneg : 0 ≤ size)
    (fits : size + h ≤ 2 ^ 31 - 1) (fresh : Fresh) (unused : s.heap.physical fresh.block = none) :
    (∃ ptr m, s.heap.allocate h size fresh = .ok (ptr, m) ∧ Usable h m ptr size) ↔
      ¬ (3840 < size + h ∧ size + h ≤ 4096) := by
  have sound : Sound h s := reach.invariant stepSound (initialSound header)
  have exactly : Heap.realAllocSize h size = size + h := signedExact (w := 31) (by omega) (by omega)
  constructor
  · rintro ⟨ptr, m, ran, _⟩ ⟨low, high⟩
    unfold Heap.allocate at ran
    simp only [exactly] at ran
    rw [if_neg (by unfold maxAllocSize; omega)] at ran
    obtain ⟨pool, entry, _⟩ := Fallible.bindOk ran
    obtain ⟨_, large, known, _⟩ := poolAtOk entry
    omega
  · intro served
    obtain ⟨ptr, m, ran⟩ := sound.allocateRuns size fresh (by rw [exactly]; omega)
    obtain ⟨_, b, room, same, physical, routes⟩ := sound.allocate unused ran
    have large := routes.fits.2
    rw [exactly] at large
    exact ⟨ptr, m, ran, b, room, same, physical, large⟩

/- A block that served 100 bytes is recycled for 112, all that its pool has room for. -/
theorem allocateServesAgain : ∃ s : Client, ∃ m,
    Reachable (Step 16) (initial fun _ => ⟨7, 7⟩) s ∧ s.heap.mFreeList 128 = [4096] ∧
    s.heap.allocate 16 112 ⟨8192, ⟨5, 5⟩⟩ = .ok (4096 + 16, m) ∧ Usable 16 m (4096 + 16) 112 := by
  have entry : poolAt 116 = .ok 128 ∧ poolAt 128 = .ok 128 := by decide +kernel
  have reach : ∃ s : Client, Reachable (Step 16) (initial fun _ => ⟨7, 7⟩) s ∧
      s.heap.mFreeList 128 = [4096] ∧ (s.heap.header 4096).mAllocSize = 0 ∧ s.heap.physical 8192 = none :=
    ⟨_, ⟨_, .more (.allocate _ 100 ⟨4096, ⟨5, 5⟩⟩ rfl _ _ (allocatePool (by decide) entry.1 rfl))
      (.more (.deallocate _ 4112 1 List.mem_cons_self _ (deallocatePool 1 (by decide) entry.1)) (.done _))⟩,
      rfl, rfl, rfl⟩
  obtain ⟨s, reach, listed, zero, unused⟩ := reach
  obtain ⟨ptr, m, ran, usable⟩ := (allocateServes (by decide) _ s reach 112 (by decide) (by decide)
    ⟨8192, ⟨5, 5⟩⟩ unused).mpr (by decide)
  obtain ⟨m', popped⟩ : ∃ m', s.heap.pop 128 ⟨8192, ⟨5, 5⟩⟩ = .ok (4096, m') := by
    unfold Heap.pop Heap.interlockedPopEntrySList
    rw [listed]
    exact ⟨_, if_pos zero⟩
  have recycled : s.heap.allocate 16 112 ⟨8192, ⟨5, 5⟩⟩ =
      .ok (4096 + 16, m'.attachMemAllocInfo 4096 128) := allocatePool (by decide) entry.2 popped
  obtain ⟨rfl, rfl⟩ := Prod.mk.inj (Except.ok.inj (recycled.symm.trans ran))
  exact ⟨s, _, reach, listed, ran, usable⟩

/- A request between the last pool and MAX_ALLOC_SIZE. -/
theorem allocateThroughNull : ¬ ∀ size : Int, 0 ≤ size → size + 16 ≤ 2 ^ 31 - 1 →
    ∃ ptr m, (initial fun _ => ⟨0, 0⟩).heap.allocate 16 size ⟨4096, ⟨0, 0⟩⟩ = .ok (ptr, m) ∧
      Usable 16 m ptr size := by
  intro claimed
  obtain ⟨ptr, m, ran, _⟩ := claimed 3900 (by decide) (by decide)
  have real : Heap.realAllocSize 16 3900 = 3916 := by decide
  have null : mSmallSizeMemoryPoolTable 3916 = none := (tableNull 3916).mpr (.inr (by decide))
  have failed : poolAt 3916 = .error .nullPool := by
    unfold poolAt
    rw [if_pos (by decide), show (3916 : Int).toNat = 3916 from rfl, null]
  unfold Heap.allocate at ran
  simp only [real] at ran
  rw [if_neg (by decide), failed] at ran
  cases ran

end Client
end IocpNetwork.MemoryPool
