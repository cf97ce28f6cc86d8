import IocpNetwork.ObjectPoolServing

/-! operator new and operator delete under their mutexes. One mutex for both keeps the
free list whole in every interleaving. A mutex for each lets one operator write mFreeList
between the read and the write of the other, and that write is all that breaks it. -/
namespace IocpNetwork.ObjectPool
open ByteMemory
open Runs (Run Move Reachable)

variable {p : PoolParams} {T : Type*}

namespace Threads
variable {version : Version} {s s' : Threads p T} {x x' : Shared p T} {t u : T} {pc before : Pc}

/- What operator new read from mFreeList is still on the list, and only a block put back
since then stands before it. -/
def Takes (version : Version) (x : Shared p T) (q : Nat) : Prop :=
  ∃ base front, x.Serves base front ∧ q ∈ front ++ [lastSlot p base] ∧
    (x.mFreeList = q ∨ version = .study ∧ x.mFreeList ∈ x.freed)

/- What operator delete read from mFreeList is still the head, or was taken since then. -/
structure Frees (version : Version) (x : Shared p T) (t : T) (obj head : Nat) : Prop where
  owns : (t, obj) ∈ x.owned
  read : x.mFreeList = head ∨ version = .study ∧ head ∈ x.live ∧ head ≠ obj

def ThreadOk (version : Version) (x : Shared p T) (t : T) : Pc → Prop
  | .allocating => x.Fresh
  | .readingNext => x.Fills (p.allocCount - 1) x.mFreeList x.mFreeList
  | .readingCurr pNext => x.Fills (p.allocCount - 1) pNext x.mFreeList
  | .linking rounds pNext ppCurr => x.Fills rounds pNext ppCurr
  | .readingHead => x.Serving
  | .readingLink pAvailable => Takes version x pAvailable
  | .writingHead pAvailable next => Takes version x pAvailable ∧ next = x.link pAvailable
  | .counting obj | .lockingDelete obj | .asserting obj | .uncounting obj | .readingFree obj =>
      (t, obj) ∈ x.owned
  | .writingLink obj head => Frees version x t obj head
  | .writingFree obj head => Frees version x t obj head ∧ x.link obj = head
  | .idle | .lockingNew | .testing | .unlockingNew _ | .unlockingDelete => True

def Filling : Pc → Prop
  | .readingNext | .readingCurr _ | .linking _ _ _ => True
  | _ => False

structure Inv (version : Version) (s : Threads p T) : Prop where
  held : ∀ u op, (s.pc u).inside = some op → s.holder (version.mutex op) = some u
  phase : s.shared.Fresh ∨ s.shared.Serving ∨
    s.shared.owned = [] ∧ s.shared.freed = [] ∧ ∃ u, Filling (s.pc u)
  threads : ∀ u, ThreadOk version s.shared u (s.pc u)

theorem initialInv (version : Version) (memory : Nat → UInt8) :
    Inv version (initial memory : Threads p T) where
  held := fun _ _ inside => by cases inside
  phase := .inl ⟨rfl, rfl, rfl, rfl⟩
  threads := fun _ => trivial

theorem fillingInside (filling : Filling pc) : pc.inside = some .operatorNew := by
  cases pc <;> first | rfl | exact absurd filling id

theorem ThreadOk.outside (ok : ThreadOk version x u pc) (empty : x.owned = [])
    (out : pc.inside ≠ some .operatorNew) : ThreadOk version x' u pc := by
  have nothing : ∀ q, (u, q) ∉ x.owned := fun q => by simp [empty]
  cases pc with
  | lockingDelete obj | asserting obj | uncounting obj | readingFree obj => exact absurd ok (nothing obj)
  | writingLink obj head => exact absurd ok.owns (nothing obj)
  | writingFree obj head => exact absurd ok.1.owns (nothing obj)
  | idle | lockingNew | unlockingDelete => trivial
  | _ => exact absurd rfl out

theorem ThreadOk.frame (ok : ThreadOk version x u pc) (serving : x'.Serving)
    (busy : pc.inside = some .operatorNew → x.owned ≠ [])
    (takes : pc.inside = some .operatorNew → ∀ q, Takes version x q →
      Takes version x' q ∧ x'.link q = x.link q)
    (owns : ∀ q, (u, q) ∈ x.owned → (u, q) ∈ x'.owned ∧ x'.link q = x.link q)
    (frees : pc.inside = some .operatorDelete → ∀ obj head, Frees version x u obj head →
      Frees version x' u obj head) : ThreadOk version x' u pc := by
  cases pc with
  | idle | lockingNew | testing | unlockingNew _ | unlockingDelete => trivial
  | allocating => exact absurd (Shared.Fresh.noneLive ok) (busy rfl)
  | readingNext | readingCurr _ | linking _ _ _ => exact absurd (Shared.Fills.noneLive ok) (busy rfl)
  | readingHead => exact serving
  | readingLink q => exact (takes rfl q ok).1
  | writingHead q next =>
    obtain ⟨ok, rfl⟩ := ok
    obtain ⟨ok', kept⟩ := takes rfl q ok
    exact ⟨ok', kept.symm⟩
  | counting obj | lockingDelete obj | asserting obj | uncounting obj | readingFree obj =>
    exact (owns obj ok).1
  | writingLink obj head => exact frees rfl obj head ok
  | writingFree obj head =>
    obtain ⟨ok, rfl⟩ := ok
    exact ⟨frees rfl obj _ ok, (owns obj ok.owns).2⟩

namespace Inv

theorem reached (inv : Inv version s) (here : s.pc t = pc) : ThreadOk version s.shared t pc :=
  here ▸ inv.threads t

theorem alone (inv : Inv version s) {op : Operator} (mine : (s.pc t).inside = some op)
    (other : (s.pc u).inside = some op) : u = t :=
  Option.some.inj ((inv.held u op other).symm.trans (inv.held t op mine))

theorem twoMutexes (inv : Inv version s) {op op' : Operator} (different : u ≠ t)
    (mine : (s.pc t).inside = some op) (other : (s.pc u).inside = some op') : version = .study := by
  cases version with
  | study => rfl
  | winIocp =>
    have holders := (inv.held u op' other).symm.trans (inv.held t op mine)
    exact absurd (Option.some.inj holders) different

theorem serving (inv : Inv version s) (owns : ∃ b, b ∈ s.shared.owned) : s.shared.Serving := by
  obtain ⟨b, mem⟩ := owns
  rcases inv.phase with fresh | serving | ⟨none, _⟩
  · exact absurd mem (by simp [fresh.noneLive])
  · exact serving
  · exact absurd mem (by simp [none])

theorem outsider (inv : Inv version s) (empty : s.shared.owned = [])
    (mine : (s.pc t).inside = some .operatorNew) (different : u ≠ t) :
    ThreadOk version x' u (s.pc u) :=
  (inv.threads u).outside empty fun other => different (inv.alone mine other)

theorem tests (inv : Inv version s) (here : s.pc t = .testing) : s.shared.Fresh ∨ s.shared.Serving := by
  rcases inv.phase with fresh | serving | ⟨_, _, u, filling⟩
  · exact .inl fresh
  · exact .inr serving
  · have same := inv.alone (by rw [here]; rfl) (fillingInside filling)
    subst same
    rw [here] at filling
    exact absurd filling id

theorem othersWritten (inv : Inv version s) {obj a : Nat} {data : List UInt8}
    (owns : (t, obj) ∈ s.shared.owned) (low : obj ≤ a) (high : a + data.length ≤ obj + p.containerSize)
    (different : u ≠ t) :
    ThreadOk (p := p) version {s.shared with memory := store s.shared.memory a data} u (s.pc u) := by
  have live := Shared.Serves.ownedLive owns
  obtain ⟨base, front, serves⟩ := inv.serving ⟨_, owns⟩
  refine (inv.threads u).frame ⟨base, front, serves.written live low high⟩
    (fun _ => List.ne_nil_of_mem owns) ?_ (fun q other => ⟨other, ?_⟩) fun _ obj head ok => ⟨ok.owns, ok.read⟩
  · rintro _ q ⟨base, front, serves, mem, read⟩
    obtain ⟨slot, dead⟩ := (serves.exactly q).mp mem
    exact ⟨⟨base, front, serves.written live low high, mem, read⟩,
      serves.linkKept live slot (fun same => dead (same ▸ live)) low high⟩
  · refine serves.linkKept live (serves.liveSlots q (Shared.Serves.ownedLive other)) ?_ low high
    rintro rfl
    exact different (serves.oneOwner other owns)

theorem oneMutex (inv : Inv .winIocp s) : ¬ s.Stale t := by
  intro stale
  unfold Stale at stale
  split at stale
  · rename_i here
    have fresh : s.shared.Fresh := inv.reached here
    exact stale fresh.empty
  · rename_i here
    obtain ⟨⟨_, _, _, _, read⟩, _⟩ := inv.reached here
    exact stale (read.resolve_right fun study => by cases study.1)
  · rename_i here
    obtain ⟨⟨_, read⟩, _⟩ := inv.reached here
    exact stale (read.resolve_right fun study => by cases study.1)
  · exact stale

theorem safe (inv : Inv version s) : s.shared.Safe := by
  have idle : s.shared.owned = [] → s.shared.freed = [] → s.shared.Safe := fun live freed =>
    ⟨by simp [live], by simp [live], by simp [Shared.live, live], by simp [freed]⟩
  rcases inv.phase with fresh | ⟨base, front, serves⟩ | ⟨live, freed, _⟩
  · exact idle fresh.noneLive fresh.noneFreed
  · exact {
      oneOwner := fun t u b left right => serves.oneOwner left right
      once := serves.liveNodup.of_map _
      liveUnlisted := fun b live listed => ((serves.listed b).mp listed).2 live
      freedListed := fun b mem => (serves.listed b).mpr (serves.freedDead b mem)}
  · exact idle live freed

section Moves
variable [DecidableEq T]

theorem assemble {holder : Mutex → Option T} (inv : Inv version s)
    (mineHeld : ∀ op, pc.inside = some op → holder (version.mutex op) = some t)
    (othersHeld : ∀ u, u ≠ t → ∀ op, (s.pc u).inside = some op →
      holder (version.mutex op) = s.holder (version.mutex op))
    (phase : x'.Fresh ∨ x'.Serving ∨ x'.owned = [] ∧ x'.freed = [] ∧ ∃ u, Filling (Function.update s.pc t pc u))
    (mine : ThreadOk version x' t pc) (others : ∀ u, u ≠ t → ThreadOk version x' u (s.pc u)) :
    Inv version ⟨x', holder, Function.update s.pc t pc⟩ where
  held := fun u op here => by
    by_cases same : u = t
    · subst same
      simp only [Function.update_self] at here
      exact mineHeld op here
    · simp only [Function.update_of_ne same] at here
      exact (othersHeld u same op here).trans (inv.held u op here)
  phase := phase
  threads := fun u => by
    by_cases same : u = t
    · subst same
      simpa only [Function.update_self] using mine
    · simpa only [Function.update_of_ne same] using others u same

theorem goes (inv : Inv version s) (here : s.pc t = before) (inside : pc.inside = before.inside)
    (phase : x'.Fresh ∨ x'.Serving ∨ x'.owned = [] ∧ x'.freed = [] ∧ ∃ u, Filling (Function.update s.pc t pc u))
    (mine : ThreadOk version x' t pc) (others : ∀ u, u ≠ t → ThreadOk version x' u (s.pc u)) :
    Inv version ({s with shared := x'}.goTo t pc) :=
  inv.assemble (fun op holds => inv.held t op (here ▸ inside ▸ holds)) (fun _ _ _ _ => rfl) phase mine others

theorem phaseKept (inv : Inv version s) (here : s.pc t = before) (still : Filling before → Filling pc) :
    s.shared.Fresh ∨ s.shared.Serving ∨
      s.shared.owned = [] ∧ s.shared.freed = [] ∧ ∃ u, Filling (Function.update s.pc t pc u) := by
  rcases inv.phase with fresh | serving | ⟨live, freed, u, filling⟩
  · exact .inl fresh
  · exact .inr (.inl serving)
  · refine .inr (.inr ⟨live, freed, u, ?_⟩)
    by_cases same : u = t
    · subst same
      rw [here] at filling
      simpa using still filling
    · simpa [Function.update_of_ne same] using filling

theorem looks (inv : Inv version s) (here : s.pc t = before) (inside : pc.inside = before.inside)
    (still : Filling before → Filling pc) (mine : ThreadOk version s.shared t pc) :
    Inv version (s.goTo t pc) :=
  inv.goes here inside (inv.phaseKept here still) mine fun u _ => inv.threads u

theorem locks (inv : Inv version s) {op : Operator} (here : s.pc t = before)
    (free : s.holder (version.mutex op) = none) (inside : pc.inside = some op)
    (still : Filling before → Filling pc) (mine : ThreadOk version s.shared t pc) :
    Inv version ((s.lock t (version.mutex op)).goTo t pc) := by
  refine inv.assemble (fun op' holds => ?_) (fun u _ op' other => ?_)
    (inv.phaseKept here still) mine fun u _ => inv.threads u
  · rw [inside] at holds
    cases holds
    exact Function.update_self ..
  · refine Function.update_of_ne (fun both => ?_) ..
    have holds := inv.held u op' other
    rw [both, free] at holds
    cases holds

theorem unlocks (inv : Inv version s) {op : Operator} (here : s.pc t = before)
    (inside : before.inside = some op) (still : Filling before → Filling .idle) :
    Inv version ((s.unlock (version.mutex op)).goTo t .idle) := by
  refine inv.assemble (fun op' holds => by cases holds) (fun u different op' other => ?_)
    (inv.phaseKept here still) trivial fun u _ => inv.threads u
  refine Function.update_of_ne (fun both => ?_) ..
  have holds := inv.held u op' other
  rw [both, inv.held t op (here ▸ inside)] at holds
  exact different (Option.some.inj holds).symm

theorem between (inv : Inv version s) (here : s.pc t = .idle) (serving : x'.Serving)
    (others : ∀ u, u ≠ t → ThreadOk version x' u (s.pc u)) : Inv version {s with shared := x'} := by
  have same : Function.update s.pc t .idle = s.pc := by rw [← here, Function.update_eq_self]
  have after : Inv (p := p) version ({s with shared := x'}.goTo t .idle) :=
    inv.goes here rfl (.inr (.inl serving)) trivial others
  simp only [goTo, same] at after
  exact after

theorem allocates (inv : Inv version s) (here : s.pc t = .allocating) (fresh : Chunk p) :
    Inv (p := p) version ({s with shared := {s.shared with
      memory := store s.shared.memory fresh.base fresh.contents
      mFreeList := fresh.base
      chunks := fresh.base :: s.shared.chunks}}.goTo t .readingNext) := by
  obtain ⟨_, noChunk, noneLive, noneFreed⟩ := inv.reached here
  obtain ⟨rounds, count, less⟩ := chunkSize p
  have inside := fresh.inside
  rw [count, Nat.mul_comm] at inside
  have segment := linkLoopSegment rounds fresh.base
    (store s.shared.memory fresh.base fresh.contents) inside
  rw [← count, slotsLast, ← less] at segment
  refine inv.goes here rfl (.inr (.inr ⟨noneLive, noneFreed, t, ?_⟩)) {
    chunk := by simp [noChunk]
    nonnull := fresh.nonnull
    placed := fresh.inside
    noneLive := noneLive
    noneFreed := noneFreed
    linked := segment.split.1} fun u different => inv.outsider noneLive (by rw [here]; rfl) different
  rw [Function.update_self]
  trivial

theorem links (inv : Inv version s) {rounds pNext ppCurr : Nat}
    (here : s.pc t = .linking (rounds + 1) pNext ppCurr) :
    Inv (p := p) version ({s with shared := {s.shared with
      memory := writeWord s.shared.memory p.ptrSize ppCurr (pNext + p.containerSize)}}.goTo t
        (.linking rounds (pNext + p.containerSize) (pNext + p.containerSize))) := by
  obtain ⟨chunk, nonnull, placed, noneLive, noneFreed, linked⟩ := inv.reached here
  refine inv.goes here rfl (.inr (.inr ⟨noneLive, noneFreed, t, ?_⟩))
    ⟨chunk, nonnull, placed, noneLive, noneFreed, linked⟩
    fun u different => inv.outsider noneLive (by rw [here]; rfl) different
  rw [Function.update_self]
  trivial

theorem totals (inv : Inv version s) {pNext ppCurr : Nat} (here : s.pc t = .linking 0 pNext ppCurr)
    (total : Int) :
    Inv (p := p) version ({s with shared := {s.shared with mTotalAllocCount := total}}.goTo t .readingHead) := by
  have fills := inv.reached here
  have serving : ({s.shared with mTotalAllocCount := total} : Shared p T).Serving :=
    ⟨_, _, {fills.serves with}⟩
  exact inv.goes here rfl (.inr (.inl serving)) serving
    fun u different => inv.outsider fills.noneLive (by rw [here]; rfl) different

theorem counts (inv : Inv version s) {obj : Nat} (here : s.pc t = before)
    (owns : (t, obj) ∈ s.shared.owned) (inside : pc.inside = before.inside) (used : Int)
    (mine : ThreadOk (p := p) version {s.shared with mCurrentUseCount := used} t pc) :
    Inv (p := p) version ({s with shared := {s.shared with mCurrentUseCount := used}}.goTo t pc) := by
  obtain ⟨base, front, serves⟩ := inv.serving ⟨_, owns⟩
  have serving : ({s.shared with mCurrentUseCount := used} : Shared p T).Serving :=
    ⟨base, front, {serves with}⟩
  refine inv.goes here inside (.inr (.inl serving)) mine fun u _ => ?_
  refine (inv.threads u).frame serving (fun _ => List.ne_nil_of_mem owns) ?_
    (fun q owns => ⟨owns, rfl⟩) fun _ obj head ok => ⟨ok.owns, ok.read⟩
  rintro _ q ⟨base, front, serves, mem, read⟩
  exact ⟨⟨base, front, {serves with}, mem, read⟩, rfl⟩

theorem writesHead (inv : Inv version s) {pAvailable next : Nat}
    (here : s.pc t = .writingHead pAvailable next) (few : s.shared.owned.length + 1 < p.allocCount)
    (current : s.shared.mFreeList = pAvailable) :
    Inv (p := p) version ({s with shared := {s.shared with
      mFreeList := next
      owned := (t, pAvailable) :: s.shared.owned
      freed := s.shared.freed.erase pAvailable}}.goTo t (.counting pAvailable)) := by
  subst current
  obtain ⟨⟨base, front, serves, _, _⟩, rfl⟩ := inv.reached here
  obtain ⟨rest, serves'⟩ := serves.pop t few
  have dead := serves.headSlot.2
  have inside : (s.pc t).inside = some .operatorNew := by rw [here]; rfl
  refine inv.goes here rfl (.inr (.inl ⟨base, rest, serves'⟩)) List.mem_cons_self
    fun u different => ?_
  refine (inv.threads u).frame ⟨base, rest, serves'⟩
    (fun other => absurd (inv.alone inside other) different)
    (fun other => absurd (inv.alone inside other) different)
    (fun q owns => ⟨List.mem_cons_of_mem _ owns, rfl⟩) ?_
  rintro other obj head ⟨owns, read⟩
  have twoMutexes := inv.twoMutexes different inside other
  refine ⟨List.mem_cons_of_mem _ owns, .inr ⟨twoMutexes, ?_⟩⟩
  rcases read with rfl | ⟨_, taken, apart⟩
  · exact ⟨List.mem_cons_self, fun same => dead (same ▸ Shared.Serves.ownedLive owns)⟩
  · exact ⟨List.mem_cons_of_mem _ taken, apart⟩

theorem writesLink (inv : Inv version s) {obj head : Nat} (here : s.pc t = .writingLink obj head) :
    Inv (p := p) version ({s with shared := {s.shared with
      memory := writeWord s.shared.memory p.ptrSize obj head}}.goTo t (.writingFree obj head)) := by
  obtain ⟨owns, read⟩ := inv.reached here
  obtain ⟨base, front, serves⟩ := inv.serving ⟨_, owns⟩
  have size := p.holdsPointer
  have high : obj + (encode p.ptrSize head).length ≤ obj + p.containerSize := by
    rw [encodeLength]
    omega
  have headSlot : head ∈ slots p base p.allocCount := by
    rcases read with rfl | ⟨_, taken, _⟩
    · exact serves.headSlot.1
    · exact serves.liveSlots head taken
  exact inv.goes here rfl
    (.inr (.inl ⟨base, front, serves.written (Shared.Serves.ownedLive owns) (Nat.le_refl _) high⟩))
    ⟨⟨owns, read⟩, readWritten _ (serves.slotPlaced headSlot).2⟩
    fun u different => inv.othersWritten owns (Nat.le_refl _) high different

theorem writesFree (inv : Inv version s) {obj head : Nat} (here : s.pc t = .writingFree obj head)
    (current : s.shared.mFreeList = head) :
    Inv (p := p) version ({s with shared := {s.shared with
      mFreeList := obj
      owned := s.shared.owned.erase (t, obj)
      freed := obj :: s.shared.freed}}.goTo t .unlockingDelete) := by
  subst current
  obtain ⟨⟨owns, _⟩, link⟩ := inv.reached here
  obtain ⟨base, front, serves⟩ := inv.serving ⟨_, owns⟩
  have inside : (s.pc t).inside = some .operatorDelete := by rw [here]; rfl
  refine inv.goes here rfl (.inr (.inl ⟨base, _, serves.push owns link⟩)) trivial
    fun u different => ?_
  refine (inv.threads u).frame ⟨base, _, serves.push owns link⟩ (fun _ => List.ne_nil_of_mem owns) ?_
    (fun q other => ⟨(List.mem_erase_of_ne fun same => different (congrArg Prod.fst same)).mpr other, rfl⟩)
    (fun other => absurd (inv.alone inside other) different)
  rintro other q ⟨base, front, serves, mem, _⟩
  exact ⟨⟨base, _, serves.push owns link, List.mem_cons_of_mem _ mem,
    .inr ⟨inv.twoMutexes different inside other, List.mem_cons_self⟩⟩, rfl⟩

theorem gives (inv : Inv version s) {obj : Nat} (here : s.pc t = .idle)
    (owns : (t, obj) ∈ s.shared.owned) (v : T) :
    Inv (p := p) version {s with shared := {s.shared with
      owned := (v, obj) :: s.shared.owned.erase (t, obj)}} := by
  obtain ⟨base, front, serves⟩ := inv.serving ⟨_, owns⟩
  refine inv.between here ⟨base, front, serves.give v owns⟩ fun u different => ?_
  have kept : ∀ q, (u, q) ∈ s.shared.owned → (u, q) ∈ (v, obj) :: s.shared.owned.erase (t, obj) :=
    fun q other => List.mem_cons_of_mem _
      ((List.mem_erase_of_ne fun same => different (congrArg Prod.fst same)).mpr other)
  refine (inv.threads u).frame ⟨base, front, serves.give v owns⟩ (fun _ => List.ne_nil_of_mem owns) ?_
    (fun q other => ⟨kept q other, rfl⟩) ?_
  · rintro _ q ⟨base, front, serves, mem, read⟩
    exact ⟨⟨base, front, serves.give v owns, mem, read⟩, rfl⟩
  · rintro _ obj' head ⟨owns', read⟩
    exact ⟨kept obj' owns', read.imp id fun ⟨study, taken, apart⟩ =>
      ⟨study, (Shared.Serves.givenLive owns).mem_iff.mpr taken, apart⟩⟩

theorem step (inv : Inv version s) (h : FewLive version s t s') (current : ¬ s.Stale t) :
    Inv version s' := by
  obtain ⟨h, few⟩ := h
  cases h with
  | callNew here => exact inv.looks here rfl id trivial
  | lockNew here free => exact inv.locks here free rfl id trivial
  | test here =>
    refine inv.looks here ?_ (fun filling => absurd filling id) ?_
    · split <;> rfl
    · split
      · rename_i empty
        rcases inv.tests here with fresh | ⟨base, front, serves⟩
        · exact fresh
        · exact absurd empty (serves.slotPlaced serves.headSlot.1).1
      · rename_i some
        rcases inv.tests here with fresh | serving
        · exact absurd fresh.empty some
        · exact serving
  | allocate fresh here => exact inv.allocates here fresh
  | readNext here =>
    have fills := inv.reached here
    exact inv.looks here rfl (fun _ => trivial) fills
  | readCurr pNext here =>
    have fills := inv.reached here
    exact inv.looks here rfl (fun _ => trivial) fills
  | link rounds pNext ppCurr here => exact inv.links here
  | total pNext ppCurr here => exact inv.totals here _
  | readHead here =>
    obtain ⟨base, front, serves⟩ := inv.reached here
    exact inv.looks here rfl id ⟨base, front, serves, serves.segment.start, .inl rfl⟩
  | readLink pAvailable here =>
    have takes := inv.reached here
    exact inv.looks here rfl id ⟨takes, rfl⟩
  | writeHead pAvailable next here =>
    simp only [Stale, here, ne_eq, not_not] at current
    exact inv.writesHead here few current
  | count pAvailable here =>
    have owns := inv.reached here
    exact inv.counts here owns (by rfl) _ trivial
  | unlockNew pAvailable here => exact inv.unlocks here rfl id
  | callDelete obj here owns => exact inv.looks here rfl id owns
  | lockDelete obj here free =>
    have owns := inv.reached here
    exact inv.locks here free rfl id owns
  | assert obj here used =>
    have owns := inv.reached here
    exact inv.looks here rfl id owns
  | uncount obj here =>
    have owns := inv.reached here
    exact inv.counts here owns (by rfl) _ owns
  | readFree obj here =>
    have owns := inv.reached here
    exact inv.looks here rfl id ⟨owns, .inl rfl⟩
  | writeLink obj head here => exact inv.writesLink here
  | writeFree obj head here =>
    simp only [Stale, here, ne_eq, not_not] at current
    exact inv.writesFree here current
  | unlockDelete here => exact inv.unlocks here rfl id
  | use obj offset data here owns inside =>
    obtain ⟨base, front, serves⟩ := inv.serving ⟨_, owns⟩
    exact inv.between here ⟨base, front, serves.written (Shared.Serves.ownedLive owns) (by omega) (by omega)⟩
      fun u different => inv.othersWritten owns (by omega) (by omega) different
  | give u obj here owns => exact inv.gives here owns u

theorem staleUnsafe (inv : Inv version s) (h : FewLive version s t s') (stale : s.Stale t) :
    ¬ s'.shared.Safe := by
  cases h.1 with
  | allocate fresh here =>
    have fresh : s.shared.Fresh := inv.reached here
    simp only [Stale, here] at stale
    exact absurd fresh.empty stale
  | writeHead pAvailable next here =>
    simp only [Stale, here] at stale
    obtain ⟨⟨base, front, serves, mem, read⟩, rfl⟩ := inv.reached here
    exact serves.popUnsafe t mem stale (read.resolve_left stale).2
  | writeFree obj head here =>
    simp only [Stale, here] at stale
    obtain ⟨⟨owns, read⟩, link⟩ := inv.reached here
    obtain ⟨base, front, serves⟩ := inv.serving ⟨_, owns⟩
    obtain ⟨_, taken, different⟩ := read.resolve_left stale
    exact serves.pushUnsafe owns link taken different
  | _ => simp_all [Stale]

end Moves
end Inv

section Runs
variable [DecidableEq T]

theorem concurrentSafe (version : Version) (memory : Nat → UInt8)
    (moves : List (Move (Threads p T) T)) (s : Threads p T)
    (run : Run (FewLive version) (initial memory) moves s) :
    ((∀ m ∈ moves, m.after.shared.Safe) ↔ ∀ m ∈ moves, ¬ m.before.Stale m.action) ∧
    (version = .winIocp → ∀ m ∈ moves, m.after.shared.Safe) := by
  have start := initialInv (p := p) (T := T) version memory
  constructor
  · refine run.everyMoveIff (I := Inv version) (fun m => m.after.shared.Safe) (fun s t => ¬ s.Stale t)
      (fun s t s' inv h => ⟨fun safe stale => inv.staleUnsafe h stale safe, fun current => (inv.step h current).safe⟩)
      (fun s t s' inv h safe => inv.step h fun stale => inv.staleUnsafe h stale safe) start
  · rintro rfl
    refine (run.everyMoveIff (I := Inv .winIocp) (fun m => m.after.shared.Safe) (fun _ _ => True)
      (fun s t s' inv h => ⟨fun _ => trivial, fun _ => (inv.step h inv.oneMutex).safe⟩)
      (fun s t s' inv h _ => inv.step h inv.oneMutex) start).mpr fun _ _ => trivial

end Runs

def threeSlots : PoolParams :=
  {twoSlots with allocCount := 3, allocCountPositive := by decide, allocCountInt := by decide}

def zeroChunk : Chunk threeSlots :=
  ⟨8192, List.replicate 24 0, by simp [threeSlots, twoSlots], by decide, by decide⟩

def oneTaken : Threads threeSlots Bool where
  shared := {
    memory := linkLoop threeSlots 2 8192 8192 (store (fun _ => 0) 8192 zeroChunk.contents)
    mFreeList := readWord (linkLoop threeSlots 2 8192 8192 (store (fun _ => 0) 8192 zeroChunk.contents)) 8 8192
    mTotalAllocCount := MachineWords.signed 32 (0 + 3)
    mCurrentUseCount := MachineWords.signed 32 (0 + 1)
    chunks := [8192]
    owned := [(false, 8192)]
    freed := []}
  holder := fun _ => none
  pc := fun _ => .idle

theorem oneTakenRun (version : Version) : ∃ moves, Run (Step version) (initial fun _ => 0) moves oneTaken ∧
    ∀ m ∈ moves, m.after.shared.owned.length < threeSlots.allocCount := by
  have run : ∃ moves s, Run (Step version) (initial fun _ => 0) moves s ∧
      (∀ m ∈ moves, m.after.shared.owned.length < threeSlots.allocCount) ∧
      s.shared = oneTaken.shared ∧ (∀ mutex, s.holder mutex = none) ∧ ∀ t, s.pc t = .idle := by
    refine ⟨_, _, .more (.callNew _ false rfl)
      (.more (.lockNew _ false rfl rfl)
      (.more (.test _ false rfl)
      (.more (.allocate _ false zeroChunk rfl (fun _ mem => absurd mem List.not_mem_nil))
      (.more (.readNext _ false rfl)
      (.more (.readCurr _ false 8192 rfl)
      (.more (.link _ false 1 8192 8192 rfl)
      (.more (.link _ false 0 8200 8200 rfl)
      (.more (.total _ false 8208 8208 rfl)
      (.more (.readHead _ false rfl)
      (.more (.readLink _ false 8192 rfl)
      (.more (.writeHead _ false 8192 _ rfl)
      (.more (.count _ false 8192 rfl)
      (.more (.unlockNew _ false 8192 rfl) (.done _)))))))))))))), ?_, rfl, ?_, ?_⟩
    · cases version <;> decide
    · intro mutex
      cases version <;> cases mutex <;> rfl
    · intro t
      cases t <;> rfl
  obtain ⟨moves, ⟨shared, holder, pc⟩, run, few, rfl, free, idle⟩ := run
  obtain rfl : holder = oneTaken.holder := funext free
  obtain rfl : pc = oneTaken.pc := funext idle
  exact ⟨moves, run, few⟩

theorem concurrentSafeGiven : ∃ moves s,
    Run (FewLive .winIocp) (initial (p := threeSlots) (T := Bool) fun _ => 0) moves s ∧
    s.shared.freed = [8192] ∧ ∀ m ∈ moves, m.after.shared.Safe := by
  obtain ⟨moves, run, few⟩ := oneTakenRun .winIocp
  have later : ∃ moves s, Run (Step .winIocp) oneTaken moves s ∧
      (∀ m ∈ moves, m.after.shared.owned.length < threeSlots.allocCount) ∧ s.shared.freed = [8192] :=
    ⟨_, _, .more (.give _ false true 8192 rfl List.mem_cons_self)
      (.more (.callDelete _ true 8192 rfl List.mem_cons_self)
      (.more (.lockDelete _ true 8192 rfl rfl)
      (.more (.assert _ true 8192 rfl (by decide))
      (.more (.uncount _ true 8192 rfl)
      (.more (.readFree _ true 8192 rfl)
      (.more (.writeLink _ true 8192 _ rfl)
      (.more (.writeFree _ true 8192 _ rfl)
      (.more (.unlockDelete _ true rfl) (.done _))))))))), by decide, rfl⟩
  obtain ⟨more, s, later, few', freed⟩ := later
  have whole := (run.append later).restrictMoves
    (P := fun m => m.after.shared.owned.length < threeSlots.allocCount)
    (List.forall_mem_append.mpr ⟨few, few'⟩)
  exact ⟨_, s, whole, freed, (concurrentSafe .winIocp _ _ s whole).2 rfl⟩

/- With two mutexes a block is put back between the read and the write of mFreeList in
operator new, and the write takes the list past it. -/
theorem concurrentFreedLost : ¬ ∀ s : Threads threeSlots Bool,
    Reachable (FewLive .study) (initial fun _ => 0) s → s.shared.Safe := by
  intro claimed
  obtain ⟨moves, run, few⟩ := oneTakenRun .study
  have later : ∃ moves s, Run (Step .study) oneTaken moves s ∧
      (∀ m ∈ moves, m.after.shared.owned.length < threeSlots.allocCount) ∧
      s.shared.freed = [8192] ∧ s.shared.chunks = [8192] ∧ s.shared.mFreeList = 8208 :=
    ⟨_, _, .more (.callNew _ true rfl)
      (.more (.lockNew _ true rfl rfl)
      (.more (.test _ true rfl)
      (.more (.readHead _ true rfl)
      (.more (.readLink _ true _ rfl)
      (.more (.callDelete _ false 8192 rfl List.mem_cons_self)
      (.more (.lockDelete _ false 8192 rfl rfl)
      (.more (.assert _ false 8192 rfl (by decide))
      (.more (.uncount _ false 8192 rfl)
      (.more (.readFree _ false 8192 rfl)
      (.more (.writeLink _ false 8192 _ rfl)
      (.more (.writeFree _ false 8192 _ rfl)
      (.more (.writeHead _ true 8200 8208 rfl) (.done _))))))))))))), by decide, rfl, rfl, rfl⟩
  obtain ⟨more, s, later, few', freed, chunks, head⟩ := later
  have whole := (run.append later).restrictMoves
    (P := fun m => m.after.shared.owned.length < threeSlots.allocCount)
    (List.forall_mem_append.mpr ⟨few, few'⟩)
  obtain ⟨free, ⟨c, chunk, front, rfl, segment, fresh⟩, listed⟩ :=
    (claimed s ⟨_, whole⟩).freedListed 8192 (freed ▸ List.mem_cons_self)
  have same : c = 8192 := List.mem_singleton.mp (chunks ▸ chunk)
  subst same
  have last : lastSlot threeSlots 8192 = 8208 := rfl
  -- mFreeList is the last slot, so nothing stands before it
  rw [head, last] at segment
  rw [last] at fresh
  obtain rfl := segment.first (.here 8208) fresh List.not_mem_nil
  exact absurd listed (by decide)

end Threads
end IocpNetwork.ObjectPool
