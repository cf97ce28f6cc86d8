import IocpNetwork.MssqlUsage.SessionThreads
import IocpNetwork.MssqlUsage.SessionReferences
import Mathlib.Data.List.Perm.Subperm

/-! The references of a Session in every interleaving of its handlers: mRefCount is exact at
every access, and OnRelease is called once, by the last thread, when nothing can reach the
session any more. -/
namespace IocpNetwork.MssqlUsage
open MachineWords (signed incrementExact decrementExact)
open Runs (Run Move Reachable)
open World (disconnects)

def Pc.KindsOk : Pc → Prop
  | .checking _ ioType | .constructing _ ioType => ioType ≠ .ioDisconnect
  | .posting _ new => new.mIoType ≠ .ioDisconnect
  | .requesting _ new => new.mIoType = .ioDisconnect
  | .onDisconnect c | .releasingBase c => c.mIoType = .ioDisconnect
  | _ => True

def Pc.Disconnecting : Pc → Prop
  | .disconnecting _ _ => True
  | _ => False

def Pc.Early : Pc → Prop
  | .requesting _ _ | .onDisconnect _ => True
  | _ => False

def Pc.Late : Pc → Prop
  | .releasingBase _ => True
  | _ => False

def Pc.Releasing : Pc → Prop
  | .deleting _ _ | .releasingBase _ | .finishing _ => True
  | _ => False

namespace Handlers
variable {T : Type*} {s s' : Handlers T} {t u : T}

/- The contexts that no thread has. -/
def parked (s : Handlers T) : List OverlappedIOContext := s.inFlight ++ s.kept

structure Held (s : Handlers T) : Prop where
  live : s.live.Nodup
  parked : s.parked.Nodup
  parkedLive : ∀ c ∈ s.parked, c ∈ s.live
  mine : ∀ t, ∀ c ∈ (s.pc t).contexts, c ∈ s.live ∧ c ∉ s.parked
  once : ∀ t, (s.pc t).contexts.Nodup
  apart : ∀ t u, t ≠ u → ∀ c ∈ (s.pc t).contexts, c ∉ (s.pc u).contexts
  owner : ∀ c ∈ s.live, c ∈ s.parked ∨ ∃ t, c ∈ (s.pc t).contexts

structure Counted (s : Handlers T) : Prop where
  exact : s.mRefCount = s.live.length + if s.baseHeld then 1 else 0
  small : s.mRefCount < 2 ^ 31

def Untouched (s : Handlers T) : Prop := s.baseHeld = true ∧ s.onDisconnect = []

structure Requests (s : Handlers T) : Prop where
  few : disconnects s.live ≤ s.requested
  once : s.requested ≤ 1
  calls : s.onDisconnect.length ≤ 1
  kinds : ∀ t, (s.pc t).KindsOk
  idle : (s.mConnected ≠ 0 ∨ ∃ t, (s.pc t).Disconnecting) → s.requested = 0 ∧ s.Untouched
  single : ∀ t, (s.pc t).Disconnecting → s.mConnected = 0 ∧ ∀ u, (s.pc u).Disconnecting → u = t
  flight : ∀ c ∈ s.inFlight, c.mIoType ≠ .ioDisconnect
  kept : ∀ c ∈ s.kept, c.mIoType = .ioDisconnect ∧ s.Untouched
  early : ∀ t, (s.pc t).Early → s.Untouched
  late : ∀ t, (s.pc t).Late → s.baseHeld = true ∧ s.onDisconnect ≠ []
  given : s.baseHeld = false → s.onDisconnect ≠ []
  pending : s.onDisconnect ≠ [] → s.baseHeld = false ∨ ∃ t, (s.pc t).Late

structure Released (s : Handlers T) : Prop where
  due : ∀ t next, s.pc t = .onRelease next → next = .waiting ∧ s.mRefCount = 0 ∧ s.onRelease = 0
  single : ∀ t u next next', s.pc t = .onRelease next → s.pc u = .onRelease next' → t = u
  once : s.onRelease ≤ 1
  after : s.onRelease = 1 → s.mRefCount = 0
  zero : s.mRefCount = 0 → s.onRelease = 1 ∨ ∃ t next, s.pc t = .onRelease next

structure Inv (s : Handlers T) : Prop where
  held : s.Held
  counted : s.Counted
  requests : s.Requests
  released : s.Released

theorem Untouched.requests (untouched : s.Untouched) (few : disconnects s.live ≤ s.requested)
    (once : s.requested ≤ 1) (kinds : ∀ t, (s.pc t).KindsOk) (late : ∀ t, ¬ (s.pc t).Late)
    (flight : ∀ c ∈ s.inFlight, c.mIoType ≠ .ioDisconnect) (kept : ∀ c ∈ s.kept, c.mIoType = .ioDisconnect)
    (idle : (s.mConnected ≠ 0 ∨ ∃ t, (s.pc t).Disconnecting) → s.requested = 0)
    (single : ∀ t, (s.pc t).Disconnecting → s.mConnected = 0 ∧ ∀ u, (s.pc u).Disconnecting → u = t) :
    s.Requests where
  few := few
  once := once
  calls := by rw [untouched.2]; exact Nat.zero_le 1
  kinds := kinds
  idle := fun begun => ⟨idle begun, untouched⟩
  single := single
  flight := flight
  kept := fun c mem => ⟨kept c mem, untouched⟩
  early := fun _ _ => untouched
  late := fun t here => absurd here (late t)
  given := fun gone => by rw [untouched.1] at gone; cases gone
  pending := fun called => absurd untouched.2 called

theorem startInv {inFlight : List OverlappedIOContext} (distinct : inFlight.Nodup)
    (few : (inFlight.length : Int) + 1 < 2 ^ 31) (kinds : ∀ c ∈ inFlight, c.mIoType ≠ .ioDisconnect) :
    (start inFlight : Handlers T).Inv where
  held := by
    have all : (start inFlight : Handlers T).parked = inFlight := List.append_nil inFlight
    exact ⟨distinct, all.symm ▸ distinct, fun _ mem => all ▸ mem, fun _ _ mem => absurd mem List.not_mem_nil,
      fun _ => List.nodup_nil, fun _ _ _ _ mem => absurd mem List.not_mem_nil, fun _ mem => .inl (all.symm ▸ mem)⟩
  counted := ⟨rfl, few⟩
  requests := by
    have none : disconnects inFlight = 0 := by simpa [disconnects, List.countP_eq_zero] using kinds
    exact Untouched.requests ⟨rfl, rfl⟩ (Nat.le_of_eq none) (Nat.zero_le 1) (fun _ => trivial) (fun _ => id)
      kinds (fun _ mem => absurd mem List.not_mem_nil) (fun _ => rfl) fun _ here => here.elim
  released := {
    due := fun _ _ here => (by cases here)
    single := fun _ _ _ _ here => (by cases here)
    once := Nat.zero_le 1
    after := fun called => (by cases called)
    zero := fun none => by
      have count : (inFlight.length : Int) + 1 = 0 := none
      omega }

theorem Inv.positive (inv : s.Inv) {c : OverlappedIOContext} (mem : c ∈ s.live) : 1 ≤ s.mRefCount := by
  have count := inv.counted.exact
  have some : 0 < s.live.length := List.length_pos_of_mem mem
  split at count <;> omega

theorem Inv.nonneg (inv : s.Inv) : 0 ≤ s.mRefCount := by
  have count := inv.counted.exact
  split at count <;> omega

theorem Inv.decremented (inv : s.Inv) : signed 32 (s.mRefCount - 1) = s.mRefCount - 1 :=
  decrementExact inv.nonneg inv.counted.small

theorem Inv.countAdded (inv : s.Inv) (positive : signed 32 (s.mRefCount + 1) > 0) (new : OverlappedIOContext) :
    signed 32 (s.mRefCount + 1) = (new :: s.live).length + (if s.baseHeld then 1 else 0) ∧
      signed 32 (s.mRefCount + 1) < 2 ^ 31 := by
  have count := inv.counted.exact
  obtain ⟨exactly, less⟩ := incrementExact inv.nonneg inv.counted.small positive
  refine ⟨?_, exactly.trans_lt less⟩
  rw [List.length_cons]
  exact exactly.trans (by omega)

theorem Inv.countErased (inv : s.Inv) {c : OverlappedIOContext} (mem : c ∈ s.live) :
    signed 32 (s.mRefCount - 1) = (s.live.erase c).length + if s.baseHeld then 1 else 0 := by
  have count := inv.counted.exact
  have some : 0 < s.live.length := List.length_pos_of_mem mem
  rw [inv.decremented, List.length_erase_of_mem mem, count]
  omega

theorem Inv.owns (inv : s.Inv) {pc : Pc} (here : s.pc t = pc) {c : OverlappedIOContext}
    (mem : c ∈ pc.contexts) : c ∈ s.live ∧ c ∉ s.parked := inv.held.mine t c (here ▸ mem)

theorem Inv.oneDisconnect (inv : s.Inv) {c d : OverlappedIOContext} (left : c ∈ s.live) (right : d ∈ s.live)
    (kind : c.mIoType = .ioDisconnect) (kind' : d.mIoType = .ioDisconnect) : c = d := by
  have few := inv.requests.few.trans inv.requests.once
  by_contra different
  have distinct : [c, d].Nodup := by simpa using different
  have both := List.subperm_of_subset distinct (List.forall_mem_cons.mpr ⟨left, List.forall_mem_singleton.mpr right⟩)
  have two := List.Subperm.countP_le (fun c => c.mIoType = .ioDisconnect) both
  simp [kind, kind'] at two
  have more : 2 ≤ disconnects s.live := two
  omega

theorem Inv.refused (inv : s.Inv) {c new : OverlappedIOContext} (here : s.pc t = .deleting c new) :
    signed 32 (s.mRefCount - 1) ≠ 0 := by
  have count := inv.counted.exact
  have both : 2 ≤ s.live.length := by
    have distinct := inv.held.once t
    rw [here] at distinct
    exact (List.subperm_of_subset distinct fun d mem => (inv.owns here mem).1).length_le
  rw [inv.decremented]
  split at count <;> omega

theorem Inv.base (inv : s.Inv) {c : OverlappedIOContext} (here : s.pc t = .releasingBase c) :
    signed 32 (s.mRefCount - 1) ≠ 0 := by
  have count := inv.counted.exact
  have some : 0 < s.live.length := List.length_pos_of_mem (inv.owns here List.mem_cons_self).1
  rw [(inv.requests.late t (by rw [here]; trivial)).1, if_pos rfl] at count
  rw [inv.decremented]
  omega

theorem afterReleaseMore (more : signed 32 (s.mRefCount - 1) ≠ 0) (next : Pc) : s.afterRelease next = next :=
  if_neg more

section Steps
variable [DecidableEq T]

omit [DecidableEq T] in
theorem Held.keptDistinct (held : s.Held) : s.kept.Nodup := (List.nodup_append.mp held.parked).2.1

omit [DecidableEq T] in
theorem Held.keptLive (held : s.Held) {c : OverlappedIOContext} (mem : c ∈ s.kept) : c ∈ s.live :=
  held.parkedLive c (List.mem_append_right _ mem)

omit [DecidableEq T] in
theorem Held.whose (held : s.Held) (t : T) (c : OverlappedIOContext) (mem : c ∈ s.live) :
    c ∈ s.parked ∨ c ∈ (s.pc t).contexts ∨ ∃ u, u ≠ t ∧ c ∈ (s.pc u).contexts := by
  rcases held.owner c mem with parked | ⟨u, his⟩
  · exact .inl parked
  · by_cases same : u = t
    · exact .inr (.inl (same ▸ his))
    · exact .inr (.inr ⟨u, same, his⟩)

theorem Held.moves (held : s.Held) {pc : Pc} (counters : s'.pc = Function.update s.pc t pc)
    (live : s'.live.Nodup) (parked : s'.parked.Nodup) (parkedLive : ∀ c ∈ s'.parked, c ∈ s'.live)
    (mine : ∀ c ∈ pc.contexts, c ∈ s'.live ∧ c ∉ s'.parked) (once : pc.contexts.Nodup)
    (others : ∀ u, u ≠ t → ∀ c ∈ (s.pc u).contexts, c ∈ s'.live ∧ c ∉ s'.parked ∧ c ∉ pc.contexts)
    (owner : ∀ c ∈ s'.live, c ∈ s'.parked ∨ c ∈ pc.contexts ∨ ∃ u, u ≠ t ∧ c ∈ (s.pc u).contexts) :
    s'.Held where
  live := live
  parked := parked
  parkedLive := parkedLive
  mine := fun u c mem => by
    rw [counters] at mem
    by_cases same : u = t
    · subst same
      rw [Function.update_self] at mem
      exact mine c mem
    · rw [Function.update_of_ne same] at mem
      exact ⟨(others u same c mem).1, (others u same c mem).2.1⟩
  once := fun u => by
    rw [counters]
    by_cases same : u = t
    · subst same
      rwa [Function.update_self]
    · rw [Function.update_of_ne same]
      exact held.once u
  apart := fun u v different c left right => by
    rw [counters] at left right
    by_cases same : u = t
    · subst same
      rw [Function.update_self] at left
      rw [Function.update_of_ne (Ne.symm different)] at right
      exact (others v (Ne.symm different) c right).2.2 left
    · rw [Function.update_of_ne same] at left
      by_cases same' : v = t
      · subst same'
        rw [Function.update_self] at right
        exact (others u same c left).2.2 right
      · rw [Function.update_of_ne same'] at right
        exact held.apart u v different c left right
  owner := fun c mem => (owner c mem).imp id fun had => by
    rw [counters]
    rcases had with mine | ⟨u, other, his⟩
    · exact ⟨t, by rwa [Function.update_self]⟩
    · exact ⟨u, by rwa [Function.update_of_ne other]⟩

theorem Held.keeps (held : s.Held) {pc before : Pc} (here : s.pc t = before)
    (counters : s'.pc = Function.update s.pc t pc) (live : s'.live = s.live)
    (parked : s'.parked = s.parked) (same : pc.contexts = before.contexts) : s'.Held := by
  rw [← here] at same
  refine held.moves counters (live ▸ held.live) (parked ▸ held.parked)
    (by rw [parked, live]; exact held.parkedLive) ?_ (same ▸ held.once t) (fun u different c mem => ?_)
    (by rw [live, parked, same]; exact held.whose t)
  · rw [live, parked, same]
    exact held.mine t
  · rw [live, parked, same]
    exact ⟨(held.mine u c mem).1, (held.mine u c mem).2, held.apart u t different c mem⟩

theorem Held.constructed (held : s.Held) {pc : Pc} {c new : OverlappedIOContext} (here : (s.pc t).contexts = [c])
    (counters : s'.pc = Function.update s.pc t pc) (apart : new ∉ s.live) (live : s'.live = new :: s.live)
    (parked : s'.parked = s.parked) (more : pc.contexts = [new, c]) : s'.Held := by
  have own := held.mine t c (here ▸ List.mem_cons_self)
  have different : new ≠ c := fun same => apart (same ▸ own.1)
  refine held.moves counters (live ▸ List.nodup_cons.mpr ⟨apart, held.live⟩) (parked ▸ held.parked) ?_ ?_
    (by rw [more]; simpa using different) (fun u other d mem => ?_) ?_
  · rw [parked, live]
    exact fun d mem => List.mem_cons_of_mem _ (held.parkedLive d mem)
  · rw [live, parked, more]
    intro d mem
    rcases List.mem_cons.mp mem with rfl | rest
    · exact ⟨List.mem_cons_self, fun old => apart (held.parkedLive _ old)⟩
    · cases List.mem_singleton.mp rest
      exact ⟨List.mem_cons_of_mem _ own.1, own.2⟩
  · have his := held.mine u d mem
    rw [live, parked, more]
    refine ⟨List.mem_cons_of_mem _ his.1, his.2, fun mine => ?_⟩
    rcases List.mem_cons.mp mine with rfl | rest
    · exact apart his.1
    · cases List.mem_singleton.mp rest
      exact held.apart u t other c mem (here ▸ List.mem_cons_self)
  · rw [live, parked, more, ← here]
    refine List.forall_mem_cons.mpr ⟨.inr (.inl List.mem_cons_self), fun d mem => ?_⟩
    exact (held.whose t d mem).imp id fun had => had.imp (List.mem_cons_of_mem _) id

theorem Held.parks (held : s.Held) {pc : Pc} {c new : OverlappedIOContext} (here : (s.pc t).contexts = [new, c])
    (counters : s'.pc = Function.update s.pc t pc) (live : s'.live = s.live)
    (parked : s'.parked.Perm (new :: s.parked)) (fewer : pc.contexts = [c]) : s'.Held := by
  have own := held.mine t new (here ▸ List.mem_cons_self)
  have own' := held.mine t c (here ▸ List.mem_cons_of_mem _ List.mem_cons_self)
  have distinct := held.once t
  rw [here] at distinct
  have different : c ≠ new := fun same => by simp [same] at distinct
  have inside : ∀ d, d ∈ s'.parked ↔ d = new ∨ d ∈ s.parked := fun d => parked.mem_iff.trans List.mem_cons
  refine held.moves counters (live ▸ held.live) (parked.nodup_iff.mpr (List.nodup_cons.mpr ⟨own.2, held.parked⟩))
    (fun d mem => ?_) (fun d mem => ?_) (by rw [fewer]; simp) (fun u other d mem => ?_) (fun d mem => ?_)
  · rw [live]
    exact ((inside d).mp mem).elim (fun same => same ▸ own.1) (held.parkedLive d)
  · rw [fewer] at mem
    cases List.mem_singleton.mp mem
    rw [live]
    exact ⟨own'.1, fun old => ((inside c).mp old).elim different own'.2⟩
  · have his := held.mine u d mem
    have notMine := held.apart u t other d mem
    rw [here] at notMine
    rw [live, fewer]
    exact ⟨his.1, fun old => ((inside d).mp old).elim (fun same => notMine (same ▸ List.mem_cons_self)) his.2,
      fun mine => notMine (List.mem_cons_of_mem _ mine)⟩
  · rw [live] at mem
    have had := held.whose t d mem
    rw [here] at had
    rw [fewer]
    rcases had with old | mine | others
    · exact .inl ((inside d).mpr (.inr old))
    · exact (List.mem_cons.mp mine).elim (fun same => .inl ((inside d).mpr (.inl same))) fun rest => .inr (.inl rest)
    · exact .inr (.inr others)

theorem Held.takes (held : s.Held) {pc : Pc} {c : OverlappedIOContext} (here : (s.pc t).contexts = [])
    (mem : c ∈ s.parked) (counters : s'.pc = Function.update s.pc t pc) (live : s'.live = s.live)
    (parked : s'.parked = s.parked.erase c) (taken : pc.contexts = [c]) : s'.Held := by
  refine held.moves counters (live ▸ held.live) (parked ▸ held.parked.erase c) ?_ ?_ (by rw [taken]; simp)
    (fun u other d his => ?_) ?_
  · rw [parked, live]
    exact fun d old => held.parkedLive d (List.mem_of_mem_erase old)
  · rw [live, parked, taken]
    intro d mine
    cases List.mem_singleton.mp mine
    exact ⟨held.parkedLive c mem, held.parked.not_mem_erase⟩
  · have own := held.mine u d his
    rw [live, parked, taken]
    exact ⟨own.1, fun old => own.2 (List.mem_of_mem_erase old), fun same =>
      own.2 (List.mem_singleton.mp same ▸ mem)⟩
  · rw [live, parked, taken]
    intro d old
    have had := held.whose t d old
    rw [here] at had
    by_cases same : d = c
    · exact .inr (.inl (same ▸ List.mem_cons_self))
    · exact had.imp (List.mem_erase_of_ne same).mpr fun others => others.imp (absurd · List.not_mem_nil) id

theorem Held.released (held : s.Held) {pc : Pc} {c : OverlappedIOContext} {rest : List OverlappedIOContext}
    (here : (s.pc t).contexts = c :: rest) (counters : s'.pc = Function.update s.pc t pc)
    (live : s'.live = s.live.erase c) (parked : s'.parked = s.parked) (fewer : pc.contexts = rest) : s'.Held := by
  have own := held.mine t
  have distinct := held.once t
  rw [here] at own distinct
  obtain ⟨absent, distinct⟩ := List.nodup_cons.mp distinct
  have stays : ∀ d, d ∈ s.live → d ≠ c → d ∈ s.live.erase c := fun d mem other =>
    (List.mem_erase_of_ne other).mpr mem
  refine held.moves counters (live ▸ held.live.erase c) (parked ▸ held.parked) ?_ ?_ (fewer ▸ distinct)
    (fun u other d his => ?_) ?_
  · rw [parked, live]
    exact fun d mem => stays d (held.parkedLive d mem) fun same => (own c List.mem_cons_self).2 (same ▸ mem)
  · rw [live, parked, fewer]
    intro d mem
    have mine := own d (List.mem_cons_of_mem _ mem)
    exact ⟨stays d mine.1 fun same => absent (same ▸ mem), mine.2⟩
  · have notMine := held.apart u t other d his
    rw [here] at notMine
    rw [live, parked, fewer]
    exact ⟨stays d (held.mine u d his).1 fun same => notMine (same ▸ List.mem_cons_self),
      (held.mine u d his).2, fun mem => notMine (List.mem_cons_of_mem _ mem)⟩
  · rw [live, parked, fewer]
    intro d mem
    obtain ⟨other, old⟩ := held.live.mem_erase_iff.mp mem
    have had := held.whose t d old
    rw [here] at had
    exact had.imp id fun others => others.imp (fun mine => (List.mem_cons.mp mine).resolve_left other) id

theorem notPostedContexts (c : OverlappedIOContext) (ioType : IoType) : (notPosted c ioType).contexts = [c] := by
  unfold notPosted
  split <;> rfl

theorem handlerContexts (c : OverlappedIOContext) : (handler c).contexts = [c] := by
  unfold handler
  split <;> rfl

omit [DecidableEq T] in
theorem afterReleaseContexts (s : Handlers T) (next : Pc) : (s.afterRelease next).contexts = next.contexts := by
  unfold afterRelease
  split <;> rfl

theorem stepHeld (held : s.Held) (step : Step s t s') : s'.Held := by
  cases step with
  | dequeue c here mem =>
    exact held.takes (by rw [here]; rfl) (List.mem_append_left _ mem) rfl rfl
      (List.erase_append_left _ mem).symm (handlerContexts c)
  | dequeueKept c here mem =>
    have apart : c ∉ s.inFlight := fun flight =>
      (List.nodup_append.mp held.parked).2.2 c flight c mem rfl
    exact held.takes (by rw [here]; rfl) (List.mem_append_right _ mem) rfl rfl
      (List.erase_append_right _ apart).symm (handlerContexts c)
  | call c ioType here posts => exact held.keeps here rfl rfl rfl rfl
  | isConnected c ioType here =>
    refine held.keeps here rfl rfl rfl ?_
    split
    · exact notPostedContexts c ioType
    · rfl
  | nothingToPost c ioType here buffered => exact held.keeps here rfl rfl rfl rfl
  | construct c new ioType here kind apart positive =>
    exact held.constructed (by rw [here]; rfl) rfl apart rfl rfl rfl
  | started c new here => exact held.parks (by rw [here]; rfl) rfl rfl (.refl _) rfl
  | refused c new here => exact held.keeps here rfl rfl rfl rfl
  | deleteRefused c new here nonneg =>
    exact held.released (by rw [here]; rfl) rfl rfl rfl
      ((afterReleaseContexts s _).trans (notPostedContexts c new.mIoType))
  | disconnectRequest c dr here => exact held.keeps here rfl rfl rfl rfl
  | exchange c dr here =>
    refine held.keeps here rfl rfl rfl ?_
    split <;> rfl
  | constructDisconnect c new dr here kind reason apart positive =>
    exact held.constructed (by rw [here]; rfl) rfl apart rfl rfl rfl
  | requestKept c new here => exact held.parks (by rw [here]; rfl) rfl rfl List.perm_middle rfl
  | requestFailed c new here => exact held.keeps here rfl rfl rfl rfl
  | onDisconnect c here => exact held.keeps here rfl rfl rfl rfl
  | releaseBase c here nonneg => exact held.keeps here rfl rfl rfl (afterReleaseContexts s _)
  | finish c here => exact held.keeps here rfl rfl rfl rfl
  | deleteIoContext c here nonneg =>
    exact held.released (by rw [here]; rfl) rfl rfl rfl (afterReleaseContexts s _)
  | onRelease next here => exact held.keeps here rfl rfl rfl rfl

theorem stepCounted (inv : s.Inv) (step : Step s t s') : s'.Counted := by
  have count := inv.counted.exact
  have small := inv.counted.small
  cases step with
  | construct c new ioType here kind apart positive
  | constructDisconnect c new dr here kind reason apart positive =>
    exact ⟨(inv.countAdded positive new).1, (inv.countAdded positive new).2⟩
  | deleteRefused c new here nonneg =>
    exact ⟨inv.countErased (inv.owns here List.mem_cons_self).1, inv.decremented.trans_lt (by omega)⟩
  | deleteIoContext c here nonneg =>
    exact ⟨inv.countErased (inv.owns here List.mem_cons_self).1, inv.decremented.trans_lt (by omega)⟩
  | releaseBase c here nonneg =>
    refine ⟨?_, inv.decremented.trans_lt (by omega)⟩
    rw [(inv.requests.late t (by rw [here]; trivial)).1, if_pos rfl] at count
    change signed 32 (s.mRefCount - 1) = (s.live.length : Int) + 0
    rw [inv.decremented]
    omega
  | _ => exact ⟨count, small⟩

omit [DecidableEq T] in
theorem Requests.more (requests : s.Requests) {new : OverlappedIOContext} (kind : new.mIoType ≠ .ioDisconnect) :
    disconnects (new :: s.live) ≤ s.requested := by
  have same : disconnects (new :: s.live) = disconnects s.live := List.countP_cons_of_neg (by simpa using kind)
  exact same.trans_le requests.few

omit [DecidableEq T] in
theorem Requests.fewer (requests : s.Requests) (c : OverlappedIOContext) :
    disconnects (s.live.erase c) ≤ s.requested :=
  (List.erase_sublist.countP_le).trans requests.few

theorem movedTo {pc : Pc} (counters : s'.pc = Function.update s.pc t pc) (at_ : Pc → Prop)
    (here : at_ (s'.pc u)) : (u = t ∧ at_ pc) ∨ (u ≠ t ∧ at_ (s.pc u)) := by
  rw [counters] at here
  by_cases same : u = t
  · subst same
    rw [Function.update_self] at here
    exact .inl ⟨rfl, here⟩
  · rw [Function.update_of_ne same] at here
    exact .inr ⟨same, here⟩

theorem Requests.kindsMoved (requests : s.Requests) {pc : Pc} (counters : s'.pc = Function.update s.pc t pc)
    (kinds : pc.KindsOk) (u : T) : (s'.pc u).KindsOk := by
  rcases movedTo counters (u := u) (· = s'.pc u) rfl with ⟨-, same⟩ | ⟨-, same⟩
  · rwa [← same]
  · rw [← same]
    exact requests.kinds u

theorem Requests.moves (requests : s.Requests) {pc before : Pc} (here : s.pc t = before) (was : ¬ before.Late)
    (counters : s'.pc = Function.update s.pc t pc)
    (connected : s'.mConnected = s.mConnected) (requested : s'.requested = s.requested)
    (base : s'.baseHeld = s.baseHeld) (calls : s'.onDisconnect = s.onDisconnect)
    (few : disconnects s'.live ≤ s.requested)
    (flight : ∀ c ∈ s'.inFlight, c.mIoType ≠ .ioDisconnect)
    (kept : ∀ c ∈ s'.kept, c.mIoType = .ioDisconnect ∧ s.Untouched) (kinds : pc.KindsOk)
    (working : ¬ pc.Disconnecting) (early : pc.Early → s.Untouched) (late : ¬ pc.Late) : s'.Requests := by
  have untouched : s.Untouched → s'.Untouched := fun was => ⟨base.trans was.1, calls.trans was.2⟩
  have still : ∀ u, (s'.pc u).Disconnecting → (s.pc u).Disconnecting := fun u here =>
    (movedTo counters Pc.Disconnecting here).elim (fun mine => absurd mine.2 working) And.right
  exact {
    few := requested ▸ few
    once := requested ▸ requests.once
    calls := calls ▸ requests.calls
    kinds := requests.kindsMoved counters kinds
    idle := fun begun => by
      rw [requested]
      have was := requests.idle (begun.imp (fun on => connected ▸ on) fun ⟨u, here⟩ => ⟨u, still u here⟩)
      exact ⟨was.1, untouched was.2⟩
    single := fun u here =>
      have was := requests.single u (still u here)
      ⟨connected.trans was.1, fun v there => was.2 v (still v there)⟩
    flight := flight
    kept := fun c mem => ⟨(kept c mem).1, untouched (kept c mem).2⟩
    early := fun u here => (movedTo counters Pc.Early here).elim (fun mine => untouched (early mine.2))
      fun other => untouched (requests.early u other.2)
    late := fun u here => by
      have was := requests.late u ((movedTo counters Pc.Late here).elim (fun mine => absurd mine.2 late) And.right)
      exact ⟨base.trans was.1, calls ▸ was.2⟩
    given := fun gone => calls ▸ requests.given (base ▸ gone)
    pending := fun called => (requests.pending (calls ▸ called)).imp (base.trans ·) fun ⟨u, there⟩ => by
      refine ⟨u, ?_⟩
      have other : u ≠ t := fun same => was (here ▸ same ▸ there)
      rwa [counters, Function.update_of_ne other] }

omit [DecidableEq T] in
theorem Requests.notLate (requests : s.Requests) (untouched : s.Untouched) (u : T) : ¬ (s.pc u).Late :=
  fun here => (requests.late u here).2 untouched.2

theorem Requests.exchanged (requests : s.Requests) (on : s.mConnected ≠ 0) {pc : Pc}
    (counters : s'.pc = Function.update s.pc t pc) (connected : s'.mConnected = 0)
    (requested : s'.requested = s.requested) (base : s'.baseHeld = s.baseHeld)
    (calls : s'.onDisconnect = s.onDisconnect) (live : s'.live = s.live)
    (flight : s'.inFlight = s.inFlight) (kept : s'.kept = s.kept) (kinds : pc.KindsOk)
    (late : ¬ pc.Late) : s'.Requests := by
  obtain ⟨fresh, was⟩ := requests.idle (.inl on)
  have mine : ∀ u, (s'.pc u).Disconnecting → u = t := fun u here =>
    (movedTo counters Pc.Disconnecting here).elim And.left fun other => absurd (requests.single u other.2).1 on
  refine Untouched.requests ⟨base.trans was.1, calls.trans was.2⟩ (by rw [live, requested]; exact requests.few)
    (requested ▸ requests.once) (requests.kindsMoved counters kinds) (fun u here => ?_) (flight ▸ requests.flight)
    (fun c mem => (requests.kept c (kept ▸ mem)).1) (fun _ => requested.trans fresh) fun u here => ⟨connected, fun v there => (mine v there).trans (mine u here).symm⟩
  exact (movedTo counters Pc.Late here).elim (fun mine => late mine.2) fun other => requests.notLate was u other.2

theorem Requests.constructed (requests : s.Requests) {pc : Pc} {new : OverlappedIOContext}
    (here : (s.pc t).Disconnecting) (counters : s'.pc = Function.update s.pc t pc)
    (connected : s'.mConnected = s.mConnected) (requested : s'.requested = s.requested + 1)
    (base : s'.baseHeld = s.baseHeld) (calls : s'.onDisconnect = s.onDisconnect)
    (live : s'.live = new :: s.live) (flight : s'.inFlight = s.inFlight) (kept : s'.kept = s.kept)
    (kinds : pc.KindsOk) (working : ¬ pc.Disconnecting) (late : ¬ pc.Late) : s'.Requests := by
  obtain ⟨fresh, was⟩ := requests.idle (.inr ⟨t, here⟩)
  obtain ⟨off, only⟩ := requests.single t here
  have nobody : ∀ u, ¬ (s'.pc u).Disconnecting := fun u there =>
    (movedTo counters Pc.Disconnecting there).elim (fun mine => working mine.2)
      fun other => other.1 (only u other.2)
  have one : s'.requested = 1 := by rw [requested, fresh]
  have few : disconnects s'.live ≤ s'.requested := by
    have before := requests.few
    have more : disconnects (new :: s.live) ≤ disconnects s.live + 1 := by
      unfold disconnects
      rw [List.countP_cons]
      split <;> omega
    rw [live]
    omega
  refine Untouched.requests ⟨base.trans was.1, calls.trans was.2⟩ few (Nat.le_of_eq one)
    (requests.kindsMoved counters kinds) (fun u there => ?_) (flight ▸ requests.flight)
    (fun c mem => (requests.kept c (kept ▸ mem)).1) (fun begun => begun.elim
      (fun on => absurd (connected.trans off) on) fun ⟨u, there⟩ => absurd there (nobody u))
    fun u there => absurd there (nobody u)
  exact (movedTo counters Pc.Late there).elim (fun mine => late mine.2) fun other => requests.notLate was u other.2

omit [DecidableEq T] in
theorem Inv.holder (inv : s.Inv) {c : OverlappedIOContext} (here : c ∈ (s.pc t).contexts)
    (kind : c.mIoType = .ioDisconnect) : s.requested = 1 ∧
      (∀ u, u ≠ t → ¬ (s.pc u).Early ∧ ¬ (s.pc u).Late) ∧ s.kept = [] := by
  have own := inv.held.mine t c here
  have least : 0 < disconnects s.live := List.countP_pos_iff.mpr ⟨c, own.1, by simpa using kind⟩
  have few := inv.requests.few
  have once := inv.requests.once
  have elsewhere : ∀ u, u ≠ t → ∀ d ∈ (s.pc u).contexts, d.mIoType ≠ .ioDisconnect := fun u other d mem kind' => by
    have same := inv.oneDisconnect own.1 (inv.held.mine u d mem).1 kind kind'
    exact inv.held.apart u t other d mem (same ▸ here)
  refine ⟨by omega, fun u other => ?_, List.eq_nil_iff_forall_not_mem.mpr fun d mem => ?_⟩
  · have kinds := inv.requests.kinds u
    have others := elsewhere u other
    cases at_ : s.pc u <;> rw [at_] at kinds others <;> refine ⟨fun early => ?_, fun late => ?_⟩ <;>
      first | exact early | exact late | exact others _ List.mem_cons_self kinds
  · have parked : d ∈ s.parked := List.mem_append_right _ mem
    exact own.2 (inv.oneDisconnect own.1 (inv.held.parkedLive d parked) kind (inv.requests.kept d mem).1 ▸ parked)

theorem Inv.completes (inv : s.Inv) {pc : Pc} {c : OverlappedIOContext} (here : c ∈ (s.pc t).contexts)
    (kind : c.mIoType = .ioDisconnect)
    (counters : s'.pc = Function.update s.pc t pc) (connected : s'.mConnected = s.mConnected)
    (requested : s'.requested = s.requested) (live : s'.live = s.live) (flight : s'.inFlight = s.inFlight)
    (kept : s'.kept = s.kept) (calls : s'.onDisconnect.length ≤ 1) (kinds : pc.KindsOk) (working : ¬ pc.Disconnecting)
    (early : ¬ pc.Early) (late : pc.Late → s'.baseHeld = true) (called : s'.onDisconnect ≠ [])
    (pending : s'.baseHeld = false ∨ pc.Late) : s'.Requests := by
  obtain ⟨one, others, none⟩ := inv.holder here kind
  have nobody : ∀ u, ¬ (s'.pc u).Disconnecting := fun u there => by
    have was := (movedTo counters Pc.Disconnecting there).elim (fun mine => absurd mine.2 working) And.right
    have fresh := (inv.requests.idle (.inr ⟨u, was⟩)).1
    omega
  exact {
    few := by rw [live, requested]; exact inv.requests.few
    once := requested ▸ inv.requests.once
    calls := calls
    kinds := inv.requests.kindsMoved counters kinds
    idle := fun begun => begun.elim
      (fun on => by have fresh := (inv.requests.idle (.inl (connected ▸ on))).1; omega)
      fun ⟨u, there⟩ => absurd there (nobody u)
    single := fun u there => absurd there (nobody u)
    flight := flight ▸ inv.requests.flight
    kept := fun d mem => by
      rw [kept, none] at mem
      cases mem
    early := fun u there => (movedTo counters Pc.Early there).elim (fun mine => absurd mine.2 early)
      fun other => absurd other.2 (others u other.1).1
    late := fun u there => (movedTo counters Pc.Late there).elim (fun mine => ⟨late mine.2, called⟩)
      fun other => absurd other.2 (others u other.1).2
    given := fun _ => called
    pending := fun _ => pending.imp id fun mine => ⟨t, by rwa [counters, Function.update_self]⟩ }

theorem stepRequests (inv : s.Inv) (step : Step s t s') : s'.Requests := by
  have requests := inv.requests
  have kinds := requests.kinds t
  cases step with
  | dequeue c here mem =>
    have same : handler c = .handling c := if_neg (requests.flight c mem)
    rw [same]
    exact requests.moves here id rfl rfl rfl rfl rfl requests.few
      (fun d old => requests.flight d (List.mem_of_mem_erase old)) requests.kept trivial id False.elim id
  | dequeueKept c here mem =>
    obtain ⟨kind, was⟩ := requests.kept c mem
    have same : handler c = .onDisconnect c := if_pos kind
    rw [same]
    exact requests.moves here id rfl rfl rfl rfl rfl requests.few requests.flight
      (fun d old => requests.kept d (List.mem_of_mem_erase old)) kind id (fun _ => was) id
  | call c ioType here posts =>
    refine requests.moves here id rfl rfl rfl rfl rfl requests.few requests.flight requests.kept ?_ id False.elim id
    rcases posts with rfl | rfl | rfl <;> exact IoType.noConfusion
  | isConnected c ioType here =>
    rw [here] at kinds
    split
    · unfold notPosted
      split <;>
        exact requests.moves here id rfl rfl rfl rfl rfl requests.few requests.flight requests.kept trivial id
          False.elim id
    · exact requests.moves here id rfl rfl rfl rfl rfl requests.few requests.flight requests.kept kinds id
        False.elim id
  | construct c new ioType here kind apart positive =>
    rw [here, ← kind] at kinds
    exact requests.moves here id rfl rfl rfl rfl rfl (requests.more kinds) requests.flight requests.kept kinds id
      False.elim id
  | started c new here =>
    rw [here] at kinds
    exact requests.moves here id rfl rfl rfl rfl rfl requests.few
      (List.forall_mem_cons.mpr ⟨kinds, requests.flight⟩) requests.kept trivial id False.elim id
  | deleteRefused c new here nonneg =>
    rw [afterReleaseMore (inv.refused here)]
    unfold notPosted
    split <;>
      exact requests.moves here id rfl rfl rfl rfl rfl (requests.fewer new) requests.flight requests.kept trivial id
        False.elim id
  | exchange c dr here =>
    split
    · rename_i off
      exact requests.moves here id rfl off.symm rfl rfl rfl requests.few requests.flight requests.kept trivial id
        False.elim id
    · rename_i on
      exact requests.exchanged on rfl rfl rfl rfl rfl rfl rfl rfl trivial id
  | constructDisconnect c new dr here kind reason apart positive =>
    exact requests.constructed (by rw [here]; trivial) rfl rfl rfl rfl rfl rfl rfl rfl kind id id
  | requestKept c new here =>
    rw [here] at kinds
    exact requests.moves here id rfl rfl rfl rfl rfl requests.few requests.flight
      (List.forall_mem_cons.mpr ⟨⟨kinds, requests.early t (by rw [here]; trivial)⟩, requests.kept⟩)
      trivial id False.elim id
  | onDisconnect c here =>
    rw [here] at kinds
    have was := requests.early t (by rw [here]; trivial)
    refine inv.completes (by rw [here]; exact List.mem_cons_self) kinds rfl rfl rfl rfl rfl rfl ?_
      kinds id id (fun _ => was.1) (List.cons_ne_nil _ _) (.inr trivial)
    simp [goTo, was.2]
  | releaseBase c here nonneg =>
    rw [here] at kinds
    have was := requests.late t (by rw [here]; trivial)
    rw [afterReleaseMore (inv.base here)]
    exact inv.completes (by rw [here]; exact List.mem_cons_self) kinds rfl rfl rfl rfl rfl rfl
      requests.calls trivial id id False.elim was.2 (.inl rfl)
  | deleteIoContext c here nonneg =>
    unfold afterRelease
    split <;>
      exact requests.moves here id rfl rfl rfl rfl rfl (requests.fewer c) requests.flight requests.kept trivial id
        False.elim id
  | onRelease next here =>
    rw [(inv.released.due t next here).1]
    exact requests.moves here id rfl rfl rfl rfl rfl requests.few requests.flight requests.kept trivial id
      False.elim id
  | nothingToPost c ioType here buffered | refused c new here | disconnectRequest c dr here
  | requestFailed c new here | finish c here =>
    exact requests.moves here id rfl rfl rfl rfl rfl requests.few requests.flight requests.kept trivial id
      False.elim id

omit [DecidableEq T] in
theorem Inv.quiet (inv : s.Inv) (alive : s.mRefCount ≠ 0) :
    (∀ u next, s.pc u ≠ .onRelease next) ∧ s.onRelease = 0 := by
  refine ⟨fun u next here => alive (inv.released.due u next here).2.1, ?_⟩
  have once := inv.released.once
  have after : s.onRelease ≠ 1 := fun called => alive (inv.released.after called)
  omega

theorem Inv.working (inv : s.Inv) (alive : s.mRefCount ≠ 0) {pc : Pc}
    (counters : s'.pc = Function.update s.pc t pc) (calls : s'.onRelease = s.onRelease)
    (due : ∀ next, pc = .onRelease next → next = .waiting ∧ s'.mRefCount = 0)
    (zero : s'.mRefCount = 0 → ∃ next, pc = .onRelease next) : s'.Released := by
  obtain ⟨nobody, never⟩ := inv.quiet alive
  have mine : ∀ u next, s'.pc u = .onRelease next → u = t ∧ pc = .onRelease next := fun u next here =>
    (movedTo counters (· = .onRelease next) here).elim id fun other => absurd other.2 (nobody u next)
  exact {
    due := fun u next here => ⟨(due next (mine u next here).2).1, (due next (mine u next here).2).2, calls.trans never⟩
    single := fun u v next next' here there => (mine u next here).1.trans (mine v next' there).1.symm
    once := by omega
    after := by omega
    zero := fun none => by
      obtain ⟨next, last⟩ := zero none
      exact .inr ⟨t, next, by rw [counters, Function.update_self, last]⟩ }

theorem handlerWorking (c : OverlappedIOContext) (next : Pc) : handler c ≠ .onRelease next := by
  unfold handler
  split <;> exact Pc.noConfusion

theorem notPostedWorking (c : OverlappedIOContext) (ioType : IoType) (next : Pc) :
    notPosted c ioType ≠ .onRelease next := by
  unfold notPosted
  split <;> exact Pc.noConfusion

theorem stepReleased (inv : s.Inv) (step : Step s t s') : s'.Released := by
  have owned : ∀ {pc : Pc} {c : OverlappedIOContext}, s.pc t = pc → c ∈ pc.contexts → s.mRefCount ≠ 0 :=
    fun here mem none => by
      have positive := inv.positive (inv.owns here mem).1
      omega
  cases step with
  | dequeue c here mem =>
    have positive := inv.positive (inv.held.parkedLive c (List.mem_append_left _ mem))
    have alive : s.mRefCount ≠ 0 := by omega
    exact inv.working alive rfl rfl (fun next same => absurd same (handlerWorking c next)) (absurd · alive)
  | dequeueKept c here mem =>
    have positive := inv.positive (inv.held.keptLive mem)
    have alive : s.mRefCount ≠ 0 := by omega
    exact inv.working alive rfl rfl (fun next same => absurd same (handlerWorking c next)) (absurd · alive)
  | isConnected c ioType here =>
    have alive := owned here List.mem_cons_self
    refine inv.working alive rfl rfl (fun next same => ?_) (absurd · alive)
    split at same
    · exact absurd same (notPostedWorking c ioType next)
    · cases same
  | construct c new ioType here kind apart positive
  | constructDisconnect c new dr here kind reason apart positive =>
    exact inv.working (owned here List.mem_cons_self) rfl rfl (fun next same => (by cases same))
      (absurd · positive.ne')
  | deleteRefused c new here nonneg =>
    rw [afterReleaseMore (inv.refused here)]
    exact inv.working (owned here List.mem_cons_self) rfl rfl
      (fun next same => absurd same (notPostedWorking c new.mIoType next)) (absurd · (inv.refused here))
  | exchange c dr here =>
    have alive := owned here List.mem_cons_self
    refine inv.working alive rfl rfl (fun next same => ?_) (absurd · alive)
    split at same <;> cases same
  | releaseBase c here nonneg =>
    rw [afterReleaseMore (inv.base here)]
    exact inv.working (owned here List.mem_cons_self) rfl rfl (fun next same => (by cases same))
      (absurd · (inv.base here))
  | deleteIoContext c here nonneg =>
    refine inv.working (owned here List.mem_cons_self) rfl rfl (fun next same => ?_) fun none =>
      ⟨.waiting, if_pos none⟩
    unfold afterRelease at same
    split at same
    · rename_i zero
      cases same
      exact ⟨rfl, zero⟩
    · cases same
  | onRelease next here =>
    obtain ⟨rfl, zero, never⟩ := inv.released.due t next here
    have nobody : ∀ u last, Function.update s.pc t .waiting u ≠ .onRelease last := fun u last there => by
      by_cases same : u = t
      · subst same
        rw [Function.update_self] at there
        cases there
      · rw [Function.update_of_ne same] at there
        exact same (inv.released.single u t last _ there here)
    have one : s.onRelease + 1 = 1 := congrArg (· + 1) never
    exact {
      due := fun u last there => absurd there (nobody u last)
      single := fun u _ last _ there _ => absurd there (nobody u last)
      once := one.le
      after := fun _ => zero
      zero := fun _ => .inl one }
  | call c ioType here posts | nothingToPost c ioType here buffered | started c new here
  | refused c new here | disconnectRequest c dr here | requestKept c new here | requestFailed c new here
  | onDisconnect c here | finish c here =>
    have alive := owned here List.mem_cons_self
    exact inv.working alive rfl rfl (fun next same => (by cases same)) (absurd · alive)

theorem stepInv (inv : s.Inv) (step : Step s t s') : s'.Inv :=
  ⟨stepHeld inv.held step, stepCounted inv step, stepRequests inv step, stepReleased inv step⟩

theorem reachableInv {inFlight : List OverlappedIOContext} (distinct : inFlight.Nodup)
    (few : (inFlight.length : Int) + 1 < 2 ^ 31) (kinds : ∀ c ∈ inFlight, c.mIoType ≠ .ioDisconnect)
    (reach : Reachable Step (start inFlight) s) : s.Inv :=
  reach.invariant (fun _ _ _ inv step => stepInv inv step) (startInv distinct few kinds)

omit [DecidableEq T] in
theorem Inv.releasing (inv : s.Inv) (here : (s.pc t).Releasing) : signed 32 (s.mRefCount - 1) ≥ 0 := by
  have positive : 1 ≤ s.mRefCount := by
    cases at_ : s.pc t <;> rw [at_] at here <;>
      first | exact here.elim | exact inv.positive (inv.owns at_ List.mem_cons_self).1
  rw [inv.decremented]
  omega

omit [DecidableEq T] in
theorem Inv.unowned (inv : s.Inv) (zero : s.mRefCount = 0) :
    s.parked = [] ∧ ∀ u, s.pc u = .waiting ∨ s.pc u = .onRelease .waiting := by
  have empty : ∀ c, c ∉ s.live := fun c mem => by
    have positive := inv.positive mem
    omega
  refine ⟨List.eq_nil_iff_forall_not_mem.mpr fun c mem => empty c (inv.held.parkedLive c mem), fun u => ?_⟩
  have mine := fun c mem => empty c (inv.held.mine u c mem).1
  cases here : s.pc u with
  | waiting => exact .inl rfl
  | onRelease next => exact .inr (congrArg Pc.onRelease (inv.released.due u next here).1)
  | _ =>
    rw [here] at mine
    exact absurd List.mem_cons_self (mine _)

omit [DecidableEq T] in
theorem Inv.connected (inv : s.Inv) (on : s.mConnected ≠ 0) : 1 ≤ s.mRefCount := by
  have count := inv.counted.exact
  rw [(inv.requests.idle (.inl on)).2.1, if_pos rfl] at count
  omega

/- Each call that gives back a reference finds one to give, whatever the others do between its
accesses, and OnRelease is called at most once: while the session is disconnected, by a thread
that is alone, with nothing under way; after it no thread makes a step on the session. -/
theorem releasedOnce {inFlight : List OverlappedIOContext} (distinct : inFlight.Nodup)
    (few : (inFlight.length : Int) + 1 < 2 ^ 31) (kinds : ∀ c ∈ inFlight, c.mIoType ≠ .ioDisconnect)
    {s : Handlers T} (reach : Reachable Step (start inFlight) s) :
    (s.mRefCount = s.live.length + if s.baseHeld then 1 else 0) ∧
    (∀ t, (s.pc t).Releasing → signed 32 (s.mRefCount - 1) ≥ 0) ∧
    s.requested ≤ 1 ∧ s.onDisconnect.length ≤ 1 ∧ s.onRelease ≤ 1 ∧
    (∀ t next, s.pc t = .onRelease next → s.onRelease = 0 ∧ s.mConnected = 0 ∧
      s.inFlight = [] ∧ s.kept = [] ∧ ∀ u, u ≠ t → s.pc u = .waiting) ∧
    (s.onRelease = 1 → s.mConnected = 0 ∧ ∀ t s', ¬ Step s t s') := by
  have inv := reachableInv distinct few kinds reach
  have off : s.mRefCount = 0 → s.mConnected = 0 := fun zero => by
    by_contra on
    have positive := inv.connected on
    omega
  refine ⟨inv.counted.exact, fun t here => inv.releasing here, inv.requests.once, inv.requests.calls,
    inv.released.once, fun t next here => ?_, fun called => ?_⟩
  · obtain ⟨-, zero, never⟩ := inv.released.due t next here
    obtain ⟨noFlight, noKept⟩ := List.append_eq_nil_iff.mp (inv.unowned zero).1
    refine ⟨never, off zero, noFlight, noKept, fun u other => ?_⟩
    refine ((inv.unowned zero).2 u).resolve_right fun there => ?_
    exact other (inv.released.single u t _ _ there here)
  · have zero := inv.released.after called
    refine ⟨off zero, fun t s' step => ?_⟩
    obtain ⟨noFlight, noKept⟩ := List.append_eq_nil_iff.mp (inv.unowned zero).1
    have idle : s.pc t = .waiting := ((inv.unowned zero).2 t).resolve_right fun there => by
      have never := (inv.released.due t _ there).2.2
      omega
    cases step with
    | dequeue c here mem => exact absurd (noFlight ▸ mem) List.not_mem_nil
    | dequeueKept c here mem => exact absurd (noKept ▸ mem) List.not_mem_nil
    | _ => simp_all

def recvContext : OverlappedIOContext := ⟨0, .ioRecv, ⟨0, none⟩, .drNone⟩

def disconnectContext : OverlappedIOContext := ⟨1, .ioDisconnect, ⟨0, none⟩, .drActive⟩

theorem releasedOnceTwo : ∃ s : Handlers Bool, Reachable Step (start [recvContext]) s ∧
    s.onDisconnect = [.drActive] ∧ s.onRelease = 1 ∧ s.mConnected = 0 ∧ ∀ t s', ¬ Step s t s' := by
  have ran : ∃ s : Handlers Bool, Reachable Step (start [recvContext]) s ∧ s.onDisconnect = [.drActive] ∧
      s.onRelease = 1 :=
    ⟨_, ⟨_, .more (.dequeue _ true recvContext rfl (by decide))
      (.more (.disconnectRequest _ true recvContext .drActive rfl)
      (.more (.exchange _ true recvContext .drActive rfl)
      (.more (.constructDisconnect _ true recvContext disconnectContext .drActive rfl rfl rfl (by decide) (by decide))
      (.more (.requestKept _ true recvContext disconnectContext rfl)
      (.more (.dequeueKept _ false disconnectContext rfl (by decide))
      (.more (.onDisconnect _ false disconnectContext rfl)
      (.more (.finish _ true recvContext rfl)
      (.more (.releaseBase _ false disconnectContext rfl (by decide))
      (.more (.deleteIoContext _ true recvContext rfl (by decide))
      (.more (.deleteIoContext _ false disconnectContext rfl (by decide))
      (.more (.onRelease _ false .waiting rfl) (.done _))))))))))))⟩, rfl, rfl⟩
  obtain ⟨s, reach, called, released⟩ := ran
  have facts := releasedOnce (by decide) (by decide) (by decide) reach
  exact ⟨s, reach, called, released, facts.2.2.2.2.2.2 released⟩

/- No completion of a kept context is taken: nothing in the code brings one. -/
def Leaves (m : Move (Handlers T) T) : Prop := m.before.kept ⊆ m.after.kept

instance : DecidablePred (Leaves (T := T)) := fun m => inferInstanceAs (Decidable (∀ c ∈ _, c ∈ m.after.kept))

def Unserved (s : Handlers T) : Prop := s.Untouched ∧ ∀ t c, s.pc t ≠ .onDisconnect c

theorem Unserved.goes (unserved : s.Unserved) {pc : Pc} (counters : s'.pc = Function.update s.pc t pc)
    (base : s'.baseHeld = s.baseHeld) (calls : s'.onDisconnect = s.onDisconnect)
    (other : ∀ c, pc ≠ .onDisconnect c) : s'.Unserved :=
  ⟨⟨base.trans unserved.1.1, calls.trans unserved.1.2⟩, fun u c here =>
    (movedTo counters (· = .onDisconnect c) here).elim (fun mine => other c mine.2) fun his => unserved.2 u c his.2⟩

theorem notPostedServes (c d : OverlappedIOContext) (ioType : IoType) : notPosted c ioType ≠ .onDisconnect d := by
  unfold notPosted
  split <;> exact Pc.noConfusion

theorem stepUnserved (inv : s.Inv) (unserved : s.Unserved) (step : Step s t s') (leaves : Leaves ⟨s, t, s'⟩) :
    s'.Unserved := by
  cases step with
  | dequeue c here mem =>
    have same : handler c = .handling c := if_neg (inv.requests.flight c mem)
    exact unserved.goes rfl rfl rfl fun d => same ▸ Pc.noConfusion
  | dequeueKept c here mem =>
    exact absurd (leaves mem) inv.held.keptDistinct.not_mem_erase
  | isConnected c ioType here =>
    refine unserved.goes rfl rfl rfl fun d => ?_
    split
    · exact notPostedServes c d ioType
    · exact Pc.noConfusion
  | deleteRefused c new here nonneg =>
    rw [afterReleaseMore (inv.refused here)]
    exact unserved.goes rfl rfl rfl fun d => notPostedServes c d new.mIoType
  | exchange c dr here =>
    refine unserved.goes rfl rfl rfl fun d => ?_
    split <;> exact Pc.noConfusion
  | onDisconnect c here => exact absurd here (unserved.2 t c)
  | releaseBase c here nonneg =>
    exact absurd (show (s.pc t).Late by rw [here]; trivial) (inv.requests.notLate unserved.1 t)
  | deleteIoContext c here nonneg =>
    refine unserved.goes rfl rfl rfl fun d => ?_
    unfold afterRelease
    split <;> exact Pc.noConfusion
  | onRelease next here =>
    obtain ⟨rfl, _⟩ := inv.released.due t next here
    exact unserved.goes rfl rfl rfl fun d => Pc.noConfusion
  | call c ioType here posts | nothingToPost c ioType here buffered
  | construct c new ioType here kind apart positive | started c new here | refused c new here
  | disconnectRequest c dr here | constructDisconnect c new dr here kind reason apart positive
  | requestKept c new here | requestFailed c new here | finish c here =>
    exact unserved.goes rfl rfl rfl fun d => Pc.noConfusion

omit [DecidableEq T] in
theorem Inv.keptOnce (inv : s.Inv) : s.kept.length + s.onDisconnect.length ≤ 1 := by
  cases kept : s.kept with
  | nil =>
    have calls := inv.requests.calls
    simpa using calls
  | cons c rest =>
    have inside : ∀ d ∈ c :: rest, d ∈ s.live ∧ d.mIoType = .ioDisconnect := fun d mem =>
      ⟨inv.held.keptLive (kept ▸ mem), (inv.requests.kept d (kept ▸ mem)).1⟩
    have once := inv.held.keptDistinct
    rw [kept] at once
    have alone : rest = [] := List.eq_nil_iff_forall_not_mem.mpr fun d mem => by
      have mine := inside c List.mem_cons_self
      have his := inside d (List.mem_cons_of_mem _ mem)
      obtain rfl := inv.oneDisconnect mine.1 his.1 mine.2 his.2
      exact (List.nodup_cons.mp once).1 mem
    have untouched := (inv.requests.kept c (kept ▸ List.mem_cons_self)).2
    rw [alone, untouched.2]
    exact Nat.le_refl 1

end Steps
end Handlers
end IocpNetwork.MssqlUsage
