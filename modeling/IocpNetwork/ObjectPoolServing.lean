import IocpNetwork.ObjectPoolThreads
import IocpNetwork.ObjectPoolFreeList

/-! The free list of one chunk while its slots are taken and put back: what every access of
operator new and operator delete keeps, and what a write of mFreeList breaks that comes too
late. -/
namespace IocpNetwork.ObjectPool
open ByteMemory
open LinkChain (Segment)

variable {p : PoolParams} {T : Type*}

theorem slotsSnoc (base count : Nat) :
    slots p base (count + 1) = slots p base count ++ [base + count * p.containerSize] := by
  induction count generalizing base with
  | zero => simp [slots]
  | succ count ih =>
    have last : base + p.containerSize + count * p.containerSize =
        base + (count + 1) * p.containerSize := by
      rw [Nat.succ_mul]
      omega
    rw [slots, ih, last]
    rfl

theorem slotsLast (base : Nat) :
    slots p base p.allocCount = slots p base (p.allocCount - 1) ++ [lastSlot p base] := by
  obtain ⟨rounds, count, less⟩ := chunkSize p
  rw [lastSlot, less, count, slotsSnoc]

namespace Shared
variable {x : Shared p T} {base q obj : Nat} {front : List Nat}

structure Fresh (x : Shared p T) : Prop where
  empty : x.mFreeList = 0
  noChunk : x.chunks = []
  noneLive : x.owned = []
  noneFreed : x.freed = []

structure Fills (x : Shared p T) (rounds pNext ppCurr : Nat) : Prop where
  chunk : x.chunks = [x.mFreeList]
  nonnull : x.mFreeList ≠ 0
  placed : x.mFreeList + p.containerSize * p.allocCount ≤ 256 ^ p.ptrSize
  noneLive : x.owned = []
  noneFreed : x.freed = []
  linked : Segment (readWord (linkLoop p rounds pNext ppCurr x.memory) p.ptrSize) x.mFreeList
    (slots p x.mFreeList (p.allocCount - 1)) (lastSlot p x.mFreeList)

structure Serves (x : Shared p T) (base : Nat) (front : List Nat) : Prop where
  chunk : x.chunks = [base]
  nonnull : base ≠ 0
  placed : base + p.containerSize * p.allocCount ≤ 256 ^ p.ptrSize
  segment : Segment x.link x.mFreeList front (lastSlot p base)
  nodup : (front ++ [lastSlot p base]).Nodup
  exactly : ∀ q, q ∈ front ++ [lastSlot p base] ↔ q ∈ slots p base p.allocCount ∧ q ∉ x.live
  total : front.length + 1 + x.owned.length = p.allocCount
  liveSlots : ∀ q ∈ x.live, q ∈ slots p base p.allocCount
  liveNodup : x.live.Nodup
  freedDead : ∀ q ∈ x.freed, q ∈ slots p base p.allocCount ∧ q ∉ x.live
  freedNodup : x.freed.Nodup

def Serving (x : Shared p T) : Prop := ∃ base front, x.Serves base front

theorem Fills.serves {pNext ppCurr : Nat} (fills : x.Fills 0 pNext ppCurr) :
    x.Serves x.mFreeList (slots p x.mFreeList (p.allocCount - 1)) where
  chunk := fills.chunk
  nonnull := fills.nonnull
  placed := fills.placed
  segment := fills.linked
  nodup := by
    rw [← slotsLast]
    exact slotsNodup _ _
  exactly := fun q => by
    rw [← slotsLast]
    simp [live, fills.noneLive]
  total := by
    have positive := p.allocCountPositive
    rw [slotsLength, fills.noneLive, List.length_nil]
    omega
  liveSlots := by simp [live, fills.noneLive]
  liveNodup := by simp [live, fills.noneLive]
  freedDead := by simp [fills.noneFreed]
  freedNodup := by simp [fills.noneFreed]

namespace Serves

theorem slotPlaced (serves : x.Serves base front) (mem : q ∈ slots p base p.allocCount) :
    q ≠ 0 ∧ q < 256 ^ p.ptrSize := by
  have inside := slotInside mem
  have nonnull := serves.nonnull
  have placed := serves.placed
  have size := p.holdsPointer
  have pointer := p.ptrNonempty
  rw [Nat.mul_comm] at inside
  omega

theorem headSlot (serves : x.Serves base front) :
    x.mFreeList ∈ slots p base p.allocCount ∧ x.mFreeList ∉ x.live :=
  (serves.exactly _).mp serves.segment.start

theorem linkKept (serves : x.Serves base front) {a : Nat} {data : List UInt8} (live : obj ∈ x.live)
    (slot : q ∈ slots p base p.allocCount) (different : q ≠ obj) (low : obj ≤ a)
    (high : a + data.length ≤ obj + p.containerSize) :
    readWord (store x.memory a data) p.ptrSize q = x.link q := by
  have apart := slotsApart slot (serves.liveSlots obj live) different
  have size := p.holdsPointer
  exact readWordCongr fun b _ _ => storeOutside x.memory (by omega)

theorem written (serves : x.Serves base front) {a : Nat} {data : List UInt8} (live : obj ∈ x.live)
    (low : obj ≤ a) (high : a + data.length ≤ obj + p.containerSize) :
    ({x with memory := store x.memory a data} : Shared p T).Serves base front :=
  {serves with
    segment := serves.segment.congr fun q mem => by
      obtain ⟨slot, dead⟩ := (serves.exactly q).mp (List.mem_append_left _ mem)
      exact serves.linkKept live slot (fun same => dead (same ▸ live)) low high}

theorem freeList (serves : x.Serves base front) {free : List Nat} :
    x.FreeList free ↔ free = front ++ [lastSlot p base] := by
  have fresh : lastSlot p base ∉ front := fun mem =>
    (List.nodup_append.mp serves.nodup).2.2 _ mem _ List.mem_cons_self rfl
  constructor
  · rintro ⟨c, chunk, other, rfl, segment, fresh'⟩
    rw [serves.chunk, List.mem_singleton] at chunk
    subst chunk
    rw [segment.first serves.segment fresh' fresh]
  · rintro rfl
    exact ⟨base, by simp [serves.chunk], front, rfl, serves.segment, fresh⟩

theorem listed (serves : x.Serves base front) (q : Nat) :
    x.Listed q ↔ q ∈ slots p base p.allocCount ∧ q ∉ x.live := by
  simp only [Listed, serves.freeList, exists_eq_left, serves.exactly]

theorem pop (serves : x.Serves base front) (t : T) (few : x.owned.length + 1 < p.allocCount) :
    ∃ rest, ({x with
      mFreeList := x.link x.mFreeList
      owned := (t, x.mFreeList) :: x.owned
      freed := x.freed.erase x.mFreeList} : Shared p T).Serves base rest := by
  obtain ⟨slot, dead⟩ := serves.headSlot
  have segment := serves.segment
  have total := serves.total
  generalize named : x.mFreeList = first at *
  cases segment with
  | here =>
    -- the last slot alone is left only where all the others are live
    rw [List.length_nil] at total
    omega
  | @link _ rest _ tail =>
    obtain ⟨fresh, nodup⟩ := List.nodup_cons.mp serves.nodup
    refine ⟨rest, {
      chunk := serves.chunk
      nonnull := serves.nonnull
      placed := serves.placed
      segment := tail
      nodup := nodup
      exactly := fun q => ?_
      total := by
        simp only [List.length_cons] at total ⊢
        omega
      liveSlots := fun q mem => ?_
      liveNodup := List.nodup_cons.mpr ⟨dead, serves.liveNodup⟩
      freedDead := fun q mem => ?_
      freedNodup := serves.freedNodup.erase _}⟩
    · have old := serves.exactly q
      show q ∈ rest ++ [lastSlot p base] ↔ q ∈ slots p base p.allocCount ∧ q ∉ first :: x.live
      rw [List.mem_cons, not_or]
      constructor
      · intro mem
        obtain ⟨slot', dead'⟩ := old.mp (List.mem_cons_of_mem _ mem)
        exact ⟨slot', fun same => fresh (same ▸ mem), dead'⟩
      · rintro ⟨slot', different, dead'⟩
        exact (List.mem_cons.mp (old.mpr ⟨slot', dead'⟩)).resolve_left different
    · rcases List.mem_cons.mp mem with rfl | old
      · exact slot
      · exact serves.liveSlots q old
    · obtain ⟨different, old⟩ := (serves.freedNodup.mem_erase_iff).mp mem
      obtain ⟨slot', dead'⟩ := serves.freedDead q old
      refine ⟨slot', fun live => ?_⟩
      rcases List.mem_cons.mp live with same | live
      · exact different same
      · exact dead' live

theorem popUnsafe (serves : x.Serves base front) (t : T) (mem : q ∈ front ++ [lastSlot p base])
    (moved : x.mFreeList ≠ q) (freed : x.mFreeList ∈ x.freed) : ¬ ({x with
      mFreeList := x.link q
      owned := (t, q) :: x.owned
      freed := x.freed.erase q} : Shared p T).Safe := by
  intro safe
  have still : x.mFreeList ∈ x.freed.erase q := (List.mem_erase_of_ne moved).mpr freed
  obtain ⟨free, ⟨c, chunk, later, rfl, segment, fresh⟩, onList⟩ := safe.freedListed _ still
  have same : c = base := List.mem_singleton.mp (serves.chunk ▸ chunk)
  subst same
  have nodup := serves.nodup
  rcases List.mem_append.mp mem with inside | last
  · obtain ⟨xs, ys, rfl⟩ := List.append_of_mem inside
    obtain ⟨before, after⟩ := serves.segment.split
    rw [List.append_assoc] at nodup
    obtain ⟨_, tailNodup, apart⟩ := List.nodup_append.mp nodup
    have unvisited : lastSlot p c ∉ ys := fun again =>
      (List.nodup_append.mp (List.nodup_cons.mp tailNodup).2).2.2 _ again _ List.mem_cons_self rfl
    obtain rfl := segment.first after fresh unvisited
    -- the old head stands before the block taken
    have early : x.mFreeList ∈ xs := (List.mem_append.mp before.start).resolve_right
      fun mem => moved (List.mem_singleton.mp mem)
    exact apart _ early _ (List.mem_cons_of_mem _ onList) rfl
  · obtain rfl := List.mem_singleton.mp last
    exact safe.liveUnlisted _ List.mem_cons_self
      ⟨_, ⟨c, chunk, later, rfl, segment, fresh⟩, List.mem_append_right _ List.mem_cons_self⟩

theorem ownedLive {t : T} (owns : (t, q) ∈ x.owned) : q ∈ x.live :=
  List.mem_map_of_mem owns

theorem oneOwner (serves : x.Serves base front) {t u : T} (left : (t, q) ∈ x.owned)
    (right : (u, q) ∈ x.owned) : t = u :=
  congrArg Prod.fst (List.inj_on_of_nodup_map serves.liveNodup left right rfl)

section Erase
variable [DecidableEq T]

theorem liveErase (serves : x.Serves base front) {t : T} (owns : (t, obj) ∈ x.owned) :
    q ∈ (x.owned.erase (t, obj)).map Prod.snd ↔ q ≠ obj ∧ q ∈ x.live := by
  have perm := (List.perm_cons_erase owns).map Prod.snd
  have nodup := perm.nodup_iff.mp serves.liveNodup
  have fresh := (List.nodup_cons.mp nodup).1
  have mem : q ∈ x.live ↔ q = obj ∨ q ∈ (x.owned.erase (t, obj)).map Prod.snd := by
    rw [← List.mem_cons]
    exact perm.mem_iff
  rw [mem]
  constructor
  · exact fun later => ⟨fun same => fresh (same ▸ later), .inr later⟩
  · exact fun ⟨different, later⟩ => later.resolve_left different

theorem push (serves : x.Serves base front) {t : T} (owns : (t, obj) ∈ x.owned)
    (link : x.link obj = x.mFreeList) : ({x with
      mFreeList := obj
      owned := x.owned.erase (t, obj)
      freed := obj :: x.freed} : Shared p T).Serves base (obj :: front) := by
  have live := ownedLive owns
  have slot := serves.liveSlots obj live
  have length := List.length_erase_of_mem owns
  have busy := List.length_pos_of_mem owns
  have total := serves.total
  refine {
    chunk := serves.chunk
    nonnull := serves.nonnull
    placed := serves.placed
    segment := .link obj (link ▸ serves.segment)
    nodup := List.nodup_cons.mpr ⟨fun mem => ((serves.exactly obj).mp mem).2 live, serves.nodup⟩
    exactly := fun q => ?_
    total := ?_
    liveSlots := fun q mem => serves.liveSlots q ((serves.liveErase owns).mp mem).2
    liveNodup := serves.liveNodup.sublist (List.erase_sublist.map Prod.snd)
    freedDead := fun q mem => ?_
    freedNodup := List.nodup_cons.mpr ⟨fun mem => (serves.freedDead obj mem).2 live, serves.freedNodup⟩}
  · have old := serves.exactly q
    show q ∈ obj :: (front ++ [lastSlot p base]) ↔ q ∈ slots p base p.allocCount ∧
      q ∉ (x.owned.erase (t, obj)).map Prod.snd
    rw [List.mem_cons, old, serves.liveErase owns]
    by_cases same : q = obj
    · simp [same, slot]
    · simp [same]
  · show (obj :: front).length + 1 + (x.owned.erase (t, obj)).length = p.allocCount
    rw [List.length_cons]
    omega
  · rcases List.mem_cons.mp mem with rfl | old
    · exact ⟨slot, fun still => ((serves.liveErase owns).mp still).1 rfl⟩
    · obtain ⟨slot', dead⟩ := serves.freedDead q old
      exact ⟨slot', fun still => dead ((serves.liveErase owns).mp still).2⟩

theorem givenLive {t u : T} (owns : (t, obj) ∈ x.owned) :
    (((u, obj) :: x.owned.erase (t, obj)).map Prod.snd).Perm x.live :=
  ((List.perm_cons_erase owns).map Prod.snd).symm

theorem give (serves : x.Serves base front) {t : T} (u : T) (owns : (t, obj) ∈ x.owned) :
    ({x with owned := (u, obj) :: x.owned.erase (t, obj)} : Shared p T).Serves base front := by
  have same := givenLive (u := u) owns
  exact {serves with
    exactly := fun q => (serves.exactly q).trans (and_congr_right' (not_congr same.mem_iff.symm))
    total := by
      have length := same.length_eq
      rw [List.length_map] at length
      simpa only [length, live, List.length_map] using serves.total
    liveSlots := fun q mem => serves.liveSlots q (same.mem_iff.mp mem)
    liveNodup := same.nodup_iff.mpr serves.liveNodup
    freedDead := fun q mem =>
      ⟨(serves.freedDead q mem).1, fun live => (serves.freedDead q mem).2 (same.mem_iff.mp live)⟩}

theorem pushUnsafe (serves : x.Serves base front) {t : T} {head : Nat} (owns : (t, obj) ∈ x.owned)
    (link : x.link obj = head) (taken : head ∈ x.live) (different : head ≠ obj) : ¬ ({x with
      mFreeList := obj
      owned := x.owned.erase (t, obj)
      freed := obj :: x.freed} : Shared p T).Safe := by
  intro safe
  obtain ⟨free, ⟨c, chunk, later, rfl, segment, fresh⟩, _⟩ := safe.freedListed obj List.mem_cons_self
  have same : c = base := List.mem_singleton.mp (serves.chunk ▸ chunk)
  subst same
  have notLast : obj ≠ lastSlot p c := by
    rintro rfl
    exact ((serves.exactly _).mp (List.mem_append_right _ List.mem_cons_self)).2 (ownedLive owns)
  obtain ⟨rest, rfl, tail⟩ := segment.uncons notLast
  have behind : head ∈ rest ++ [lastSlot p c] := link ▸ tail.start
  exact safe.liveUnlisted head ((serves.liveErase owns).mpr ⟨different, taken⟩)
    ⟨_, ⟨c, chunk, _, rfl, segment, fresh⟩, List.mem_cons_of_mem _ behind⟩

end Erase
end Serves
end Shared
end IocpNetwork.ObjectPool
