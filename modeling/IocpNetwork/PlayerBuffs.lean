import IocpNetwork.Player
import Mathlib.Tactic.Common

/-! The buffs of a player over any sequence of grants and decays. Each grant has its own
duration, but the map has one entry for an id, and AddBuff keeps the entry that is there:
the new duration is lost, however long it is. -/
namespace IocpNetwork.Player
open MachineWords (signed signedExact)

inductive BuffCall where
  | addBuff (fromPlayerId buffId duration : Int)
  | decayTickBuff
  deriving DecidableEq, Repr

def call (player : Player) : BuffCall → Player
  | .addBuff fromPlayerId buffId duration => player.addBuff fromPlayerId buffId duration
  | .decayTickBuff => player.decayTickBuff

def perform (player : Player) (calls : List BuffCall) : Player := calls.foldl call player

def BuffCall.Positive : BuffCall → Prop
  | .addBuff _ _ duration => 0 < duration ∧ duration < 2 ^ 31
  | .decayTickBuff => True
instance (c : BuffCall) : Decidable c.Positive :=
  match c with
  | .addBuff _ _ duration => inferInstanceAs (Decidable (0 < duration ∧ duration < 2 ^ 31))
  | .decayTickBuff => isTrue trivial

def decays (calls : List BuffCall) : Nat := calls.count .decayTickBuff

def Covered (heartBeat buffId : Int) (calls : List BuffCall) : Prop :=
  ∃ earlier fromPlayerId duration later,
    calls = earlier ++ .addBuff fromPlayerId buffId duration :: later ∧
    decays later * heartBeat < duration

/- A grant for a listed buff with a duration that takes more decays to use up than what
is left of the entry. -/
def Outlasts (player : Player) (buffId : Int) : BuffCall → Prop
  | .addBuff _ id duration => id = buffId ∧ ∃ second, player.mBuffList[buffId]? = some second ∧
      ∃ k : Nat, second ≤ k * player.mHeartBeat ∧ k * player.mHeartBeat < duration
  | .decayTickBuff => False

def Granted (heartBeat buffId : Int) (calls : List BuffCall) (left : Int) : Prop :=
  ∃ earlier fromPlayerId duration later,
    calls = earlier ++ .addBuff fromPlayerId buffId duration :: later ∧
    left = duration - decays later * heartBeat

def account (heartBeat buffId : Int) (left : List Int) : BuffCall → List Int
  | .addBuff _ id duration => if id = buffId then duration :: left else left
  | .decayTickBuff => left.map (· - heartBeat)

section Account
variable {heartBeat buffId x : Int}

theorem coveredGranted (calls : List BuffCall) :
    Covered heartBeat buffId calls ↔ ∃ left, Granted heartBeat buffId calls left ∧ 0 < left := by
  constructor
  · rintro ⟨earlier, f, duration, later, split, covers⟩
    exact ⟨_, ⟨earlier, f, duration, later, split, rfl⟩, by omega⟩
  · rintro ⟨_, ⟨earlier, f, duration, later, split, rfl⟩, some⟩
    exact ⟨earlier, f, duration, later, split, by omega⟩

theorem decaysCons (c : BuffCall) (calls : List BuffCall) :
    decays (c :: calls) = decays [c] + decays calls := by
  simp only [decays, List.count_cons, List.count_nil]
  omega

theorem grantedCons (c : BuffCall) (calls : List BuffCall) : Granted heartBeat buffId (c :: calls) x ↔
    (∃ f duration, c = .addBuff f buffId duration ∧ x = duration - decays calls * heartBeat) ∨
    Granted heartBeat buffId calls x := by
  constructor
  · rintro ⟨earlier, f, duration, later, split, rfl⟩
    cases earlier with
    | nil =>
      obtain ⟨rfl, rfl⟩ := List.cons.inj split
      exact .inl ⟨f, duration, rfl, rfl⟩
    | cons _ earlier =>
      obtain ⟨_, rfl⟩ := List.cons.inj split
      exact .inr ⟨earlier, f, duration, later, rfl, rfl⟩
  · rintro (⟨f, duration, rfl, rfl⟩ | ⟨earlier, f, duration, later, rfl, rfl⟩)
    · exact ⟨[], f, duration, calls, rfl, rfl⟩
    · exact ⟨c :: earlier, f, duration, later, rfl, rfl⟩

theorem accountCall (left : List Int) (c : BuffCall) : x ∈ account heartBeat buffId left c ↔
    (∃ f, c = .addBuff f buffId x) ∨ ∃ y ∈ left, x = y - decays [c] * heartBeat := by
  cases c with
  | addBuff f id duration =>
    by_cases here : id = buffId
    · simp [account, decays, here, eq_comm]
    · simp [account, decays, here]
  | decayTickBuff => simp [account, decays, eq_comm]

theorem accountRun (left : List Int) (calls : List BuffCall) :
    x ∈ calls.foldl (account heartBeat buffId) left ↔
      (∃ y ∈ left, x = y - decays calls * heartBeat) ∨ Granted heartBeat buffId calls x := by
  induction calls generalizing left with
  | nil =>
    have none : ¬ Granted heartBeat buffId [] x := by
      rintro ⟨earlier, f, duration, later, split, _⟩
      exact absurd split.symm (List.append_ne_nil_of_right_ne_nil _ (List.cons_ne_nil _ _))
    simp [decays, none]
  | cons c calls ih =>
    rw [List.foldl_cons, ih, grantedCons, decaysCons]
    constructor
    · rintro (⟨y, mem, rfl⟩ | granted)
      · rcases (accountCall left c).mp mem with ⟨f, rfl⟩ | ⟨z, old, rfl⟩
        · exact .inr (.inl ⟨f, y, rfl, rfl⟩)
        · exact .inl ⟨z, old, by grind⟩
      · exact .inr (.inr granted)
    · rintro (⟨z, old, rfl⟩ | ⟨f, duration, rfl, rfl⟩ | granted)
      · exact .inl ⟨_, (accountCall left c).mpr (.inr ⟨z, old, rfl⟩), by grind⟩
      · exact .inl ⟨duration, (accountCall left _).mpr (.inl ⟨f, rfl⟩), rfl⟩
      · exact .inr granted

end Account

theorem decayLoopOther {heartBeat : Int} {entries : List (Int × Int)} {mBuffList : Std.TreeMap Int Int}
    {id : Int} (other : id ∉ entries.map Prod.fst) :
    (decayLoop heartBeat entries mBuffList)[id]? = mBuffList[id]? := by
  induction entries generalizing mBuffList with
  | nil => rfl
  | cons entry later ih =>
    rw [List.map_cons, List.mem_cons, not_or] at other
    have different : ¬ compare entry.1 id = .eq := by
      rw [Std.compare_eq_iff_eq]
      exact fun same => other.1 same.symm
    simp only [decayLoop]
    rw [ih other.2]
    split
    · rw [Std.TreeMap.getElem?_erase, if_neg different]
    · rw [Std.TreeMap.getElem?_insert, if_neg different]

def decayed (heartBeat second : Int) : Option Int :=
  if signed 32 (second - heartBeat) ≤ 0 then none else some (signed 32 (second - heartBeat))

theorem decayLoopEntry {heartBeat : Int} {entries : List (Int × Int)} {mBuffList : Std.TreeMap Int Int}
    {id second : Int} (mem : (id, second) ∈ entries) (distinct : (entries.map Prod.fst).Nodup) :
    (decayLoop heartBeat entries mBuffList)[id]? = decayed heartBeat second := by
  induction entries generalizing mBuffList with
  | nil => cases mem
  | cons entry later ih =>
    obtain ⟨fresh, distinct⟩ := List.nodup_cons.mp distinct
    rcases List.mem_cons.mp mem with rfl | old
    · simp only [decayLoop]
      rw [decayLoopOther fresh]
      unfold decayed
      split
      · rw [Std.TreeMap.getElem?_erase_self]
      · rw [Std.TreeMap.getElem?_insert_self]
    · exact ih old distinct

theorem decayLookup (player : Player) (id : Int) :
    player.decayTickBuff.mBuffList[id]? =
      player.mBuffList[id]?.bind (decayed player.mHeartBeat) := by
  have distinct : (player.mBuffList.toList.map Prod.fst).Nodup := by
    rw [Std.TreeMap.map_fst_toList_eq_keys]
    exact Std.TreeMap.distinct_keys.imp fun different same => different (Std.compare_eq_iff_eq.mpr same)
  cases entry : player.mBuffList[id]? with
  | none =>
    have other : id ∉ player.mBuffList.toList.map Prod.fst := by
      intro mem
      obtain ⟨⟨_, second⟩, listed, rfl⟩ := List.mem_map.mp mem
      rw [Std.TreeMap.mem_toList_iff_getElem?_eq_some.mp listed] at entry
      contradiction
    exact (decayLoopOther other).trans entry
  | some second =>
    have listed := Std.TreeMap.mem_toList_iff_getElem?_eq_some.mpr entry
    exact decayLoopEntry listed distinct

theorem addLookup (player : Player) (f id duration other : Int) :
    (player.addBuff f id duration).mBuffList[other]? =
      if id = other ∧ player.mBuffList[id]? = none then some duration
      else player.mBuffList[other]? := by
  simp only [addBuff, Std.TreeMap.getElem?_insertIfNew, Std.compare_eq_iff_eq,
    Std.TreeMap.mem_iff_isSome_getElem?, Bool.not_eq_true, Option.isSome_eq_false_iff,
    Option.isNone_iff_eq_none]

/- One entry against the account of its buff: whatever the calls, it is what is left of
one grant. -/
structure Entry (player : Player) (buffId : Int) (left : List Int) : Prop where
  size : ∀ second, player.mBuffList[buffId]? = some second → 0 < second ∧ second < 2 ^ 31
  granted : ∀ second, player.mBuffList[buffId]? = some second → second ∈ left

def Lasting (player : Player) (buffId : Int) (left : List Int) : Prop :=
  ∀ x ∈ left, ∀ k : Nat, k * player.mHeartBeat < x →
    ∃ second, player.mBuffList[buffId]? = some second ∧ k * player.mHeartBeat < second

section Calls
variable {player : Player} {buffId : Int} {left : List Int} {c : BuffCall} {calls : List BuffCall}

theorem callHeartBeat (player : Player) (c : BuffCall) :
    (player.call c).mHeartBeat = player.mHeartBeat := by
  cases c <;> rfl

theorem performHeartBeat (player : Player) (calls : List BuffCall) :
    (player.perform calls).mHeartBeat = player.mHeartBeat := by
  induction calls generalizing player with
  | nil => rfl
  | cons c calls ih => exact (ih (player.call c)).trans (callHeartBeat player c)

theorem decayedExact {heartBeat second : Int} (beats : 0 < heartBeat ∧ heartBeat < 2 ^ 31)
    (size : 0 < second ∧ second < 2 ^ 31) :
    decayed heartBeat second = if second ≤ heartBeat then none else some (second - heartBeat) := by
  have exactly : signed 32 (second - heartBeat) = second - heartBeat :=
    signedExact (w := 31) (by omega) (by omega)
  unfold decayed
  rw [exactly]
  by_cases spent : second ≤ heartBeat
  · rw [if_pos (by omega), if_pos spent]
  · rw [if_neg (by omega), if_neg spent]

theorem Entry.decay (entry : player.Entry buffId left)
    (beats : 0 < player.mHeartBeat ∧ player.mHeartBeat < 2 ^ 31) {second : Int}
    (listed : player.mBuffList[buffId]? = some second) :
    player.decayTickBuff.mBuffList[buffId]? =
      if second ≤ player.mHeartBeat then none else some (second - player.mHeartBeat) := by
  rw [decayLookup, listed, Option.bind_some, decayedExact beats (entry.size second listed)]

theorem Entry.call (entry : player.Entry buffId left)
    (beats : 0 < player.mHeartBeat ∧ player.mHeartBeat < 2 ^ 31) (positive : c.Positive) :
    (player.call c).Entry buffId (account player.mHeartBeat buffId left c) := by
  cases c with
  | addBuff f id duration =>
    refine ⟨fun second listed => ?_, fun second listed => ?_⟩ <;>
      rw [Player.call, addLookup] at listed <;> split at listed
    · cases listed
      exact positive
    · exact entry.size second listed
    · rename_i new
      cases listed
      exact (accountCall left _).mpr (.inl ⟨f, by rw [new.1]⟩)
    · exact (accountCall left _).mpr (.inr ⟨second, entry.granted second listed, by simp [decays]⟩)
  | decayTickBuff =>
    cases old : player.mBuffList[buffId]? with
    | none =>
      have gone : player.decayTickBuff.mBuffList[buffId]? = none := by rw [decayLookup, old]; rfl
      refine ⟨fun second listed => ?_, fun second listed => ?_⟩ <;>
        rw [Player.call, gone] at listed <;> contradiction
    | some whole =>
      have size := entry.size whole old
      have rest := entry.decay beats old
      refine ⟨fun second listed => ?_, fun second listed => ?_⟩ <;>
        rw [Player.call, rest] at listed <;> split at listed <;> cases listed
      · omega
      · exact List.mem_map.mpr ⟨whole, entry.granted whole old, rfl⟩

theorem Lasting.call (lasting : player.Lasting buffId left) (entry : player.Entry buffId left)
    (beats : 0 < player.mHeartBeat ∧ player.mHeartBeat < 2 ^ 31) (keeps : ¬ player.Outlasts buffId c) :
    (player.call c).Lasting buffId (account player.mHeartBeat buffId left c) := by
  intro x mem k covers
  rw [callHeartBeat] at covers ⊢
  cases c with
  | addBuff f id duration =>
    rw [Player.call, addLookup]
    rcases (accountCall left _).mp mem with ⟨f', same⟩ | ⟨y, old, rfl⟩
    · -- the new grant
      cases same
      cases listed : player.mBuffList[buffId]? with
      | none => exact ⟨x, if_pos ⟨rfl, rfl⟩, covers⟩
      | some second =>
        refine ⟨second, if_neg (fun new => Option.some_ne_none _ new.2), ?_⟩
        by_contra spent
        exact keeps ⟨rfl, second, listed, k, by omega, covers⟩
    · have quiet : decays [.addBuff f id duration] = 0 := rfl
      rw [quiet] at covers
      obtain ⟨second, listed, more⟩ := lasting y old k (by simpa using covers)
      refine ⟨second, ?_, more⟩
      rw [if_neg fun new => ?_, listed]
      rw [new.1, listed] at new
      cases new.2
  | decayTickBuff =>
    obtain ⟨y, old, rfl⟩ := List.mem_map.mp mem
    obtain ⟨second, listed, more⟩ := lasting y old (k + 1) (by push_cast; grind)
    push_cast at more
    have size := entry.size second listed
    have nonneg : 0 ≤ k * player.mHeartBeat := Int.mul_nonneg (by omega) (by omega)
    have rest := entry.decay beats listed
    rw [Int.add_mul, Int.one_mul] at more
    rw [if_neg (by omega)] at rest
    exact ⟨_, rest, by omega⟩

theorem Entry.run (entry : player.Entry buffId left)
    (beats : 0 < player.mHeartBeat ∧ player.mHeartBeat < 2 ^ 31) (positive : ∀ c ∈ calls, c.Positive) :
    (player.perform calls).Entry buffId (calls.foldl (account player.mHeartBeat buffId) left) := by
  induction calls generalizing player left with
  | nil => exact entry
  | cons c calls ih =>
    have first := entry.call beats (positive c List.mem_cons_self)
    have beat := callHeartBeat player c
    have rest := ih first (beat ▸ beats) fun c' mem => positive c' (List.mem_cons_of_mem _ mem)
    rw [beat] at rest
    exact rest

theorem Lasting.run (lasting : player.Lasting buffId left) (entry : player.Entry buffId left)
    (beats : 0 < player.mHeartBeat ∧ player.mHeartBeat < 2 ^ 31) (positive : ∀ c ∈ calls, c.Positive)
    (keeps : ∀ earlier c later, calls = earlier ++ c :: later →
      ¬ (player.perform earlier).Outlasts buffId c) :
    (player.perform calls).Lasting buffId (calls.foldl (account player.mHeartBeat buffId) left) := by
  induction calls generalizing player left with
  | nil => exact lasting
  | cons c calls ih =>
    have beat := callHeartBeat player c
    have entry' := entry.call beats (positive c List.mem_cons_self)
    have lasting' := lasting.call entry beats (keeps [] c calls rfl)
    have rest := ih lasting' entry' (beat ▸ beats) (fun c' mem => positive c' (List.mem_cons_of_mem _ mem))
      fun earlier c' later split => keeps (c :: earlier) c' later (congrArg (c :: ·) split)
    rw [beat] at rest
    exact rest

theorem Entry.usedUp (entry : player.Entry buffId left)
    (beats : 0 < player.mHeartBeat ∧ player.mHeartBeat < 2 ^ 31) {k : Nat}
    (spent : ∀ second, player.mBuffList[buffId]? = some second → second ≤ k * player.mHeartBeat) :
    (player.perform (List.replicate k .decayTickBuff)).mBuffList[buffId]? = none := by
  induction k generalizing player left with
  | zero =>
    cases listed : player.mBuffList[buffId]? with
    | none => exact listed
    | some second =>
      have size := entry.size second listed
      have none := spent second listed
      simp at none
      omega
  | succ k ih =>
    have entry' : player.decayTickBuff.Entry buffId (account player.mHeartBeat buffId left .decayTickBuff) :=
      entry.call (c := .decayTickBuff) beats trivial
    refine ih entry' beats fun rest listed' => ?_
    rw [Player.call] at listed'
    cases listed : player.mBuffList[buffId]? with
    | none =>
      rw [decayLookup, listed] at listed'
      cases listed'
    | some second =>
      have less := spent second listed
      rw [entry.decay beats listed] at listed'
      split at listed' <;> cases listed'
      push_cast at less
      rw [Int.add_mul, Int.one_mul] at less
      rw [callHeartBeat]
      omega

end Calls

theorem unlistedEntry {player : Player} (empty : player.mBuffList = ∅) (buffId : Int) :
    player.Entry buffId [] ∧ player.Lasting buffId [] := by
  have none : ∀ second, player.mBuffList[buffId]? ≠ some second := fun second => by simp [empty]
  exact ⟨⟨fun second listed => absurd listed (none second), fun second listed => absurd listed (none second)⟩,
    fun _ mem => absurd mem List.not_mem_nil⟩

theorem listedCovered {player : Player} {calls : List BuffCall} {buffId : Int}
    (empty : player.mBuffList = ∅) (beats : 0 < player.mHeartBeat ∧ player.mHeartBeat < 2 ^ 31)
    (positive : ∀ c ∈ calls, c.Positive) (keeps : ∀ earlier c later, calls = earlier ++ c :: later →
      ¬ (player.perform earlier).Outlasts buffId c) :
    buffId ∈ (player.perform calls).mBuffList ↔ Covered player.mHeartBeat buffId calls := by
  obtain ⟨entry, lasting⟩ := unlistedEntry empty buffId
  have entry' := entry.run beats positive
  have lasting' := lasting.run entry beats positive keeps
  rw [Std.TreeMap.mem_iff_isSome_getElem?, Option.isSome_iff_exists, coveredGranted]
  constructor
  · rintro ⟨second, listed⟩
    rcases (accountRun [] calls).mp (entry'.granted second listed) with ⟨_, none, _⟩ | granted
    · cases none
    · exact ⟨second, granted, (entry'.size second listed).1⟩
  · rintro ⟨x, granted, some⟩
    obtain ⟨second, listed, _⟩ := lasting' x ((accountRun [] calls).mpr (.inr granted)) 0 (by simpa using some)
    exact ⟨second, listed⟩

/- A grant that outlasts the entry is lost: when the entry is used up, the buff is gone
although this grant still covers it. -/
theorem outlastsLost {player : Player} {earlier : List BuffCall} {c : BuffCall} {buffId : Int}
    (empty : player.mBuffList = ∅) (beats : 0 < player.mHeartBeat ∧ player.mHeartBeat < 2 ^ 31)
    (positive : ∀ c' ∈ earlier ++ [c], c'.Positive)
    (outlasts : (player.perform earlier).Outlasts buffId c) :
    ∃ k : Nat, buffId ∉
        (player.perform (earlier ++ [c] ++ List.replicate k .decayTickBuff)).mBuffList ∧
      Covered player.mHeartBeat buffId (earlier ++ [c] ++ List.replicate k .decayTickBuff) := by
  cases c with
  | decayTickBuff => exact absurd outlasts id
  | addBuff f id duration =>
    obtain ⟨rfl, second, listed, k, spent, covers⟩ := outlasts
    rw [performHeartBeat] at spent covers
    refine ⟨k, ?_, earlier, f, duration, List.replicate k .decayTickBuff, by simp, ?_⟩
    · have entry := (unlistedEntry empty id).1.run beats positive
      have beat := performHeartBeat player (earlier ++ [.addBuff f id duration])
      have kept : (player.perform (earlier ++ [.addBuff f id duration])).mBuffList[id]? = some second := by
        have last : player.perform (earlier ++ [.addBuff f id duration]) =
            (player.perform earlier).addBuff f id duration := by
          simp only [perform, List.foldl_append, List.foldl_cons, List.foldl_nil, call]
        rw [last, addLookup, if_neg fun new => ?_]
        · exact listed
        · rw [listed] at new
          cases new.2
      have none := entry.usedUp (k := k) (beat ▸ beats) fun second' listed' => by
        rw [kept] at listed'
        cases listed'
        rw [beat]
        exact spent
      rw [Std.TreeMap.mem_iff_isSome_getElem?, perform, List.foldl_append]
      simp only [perform] at none
      rw [none]
      exact nofun
    · simpa [decays] using covers

/- The condition on a sequence is one on its beginnings, with any decays after them. -/
theorem keepsDecaying {player : Player} {calls earlier : List BuffCall} {buffId : Int} (k : Nat)
    (keeps : ∀ earlier c later, calls = earlier ++ c :: later →
      ¬ (player.perform earlier).Outlasts buffId c) (started : earlier <+: calls) :
    ∀ before c later, earlier ++ List.replicate k .decayTickBuff = before ++ c :: later →
      ¬ (player.perform before).Outlasts buffId c := by
  intro before c later split
  obtain ⟨end', rfl⟩ := started
  cases c with
  | decayTickBuff => exact id
  | addBuff f id duration =>
    have grant : BuffCall.addBuff f id duration ∉ List.replicate k .decayTickBuff := fun mem => by
      cases List.eq_of_mem_replicate mem
    rcases List.append_eq_append_iff.mp split with ⟨more, _, rest⟩ | ⟨rest, rfl, here⟩
    · refine absurd ?_ grant
      rw [rest]
      exact List.mem_append_right _ List.mem_cons_self
    · cases rest with
      | nil =>
        refine absurd ?_ grant
        rw [← here.trans (List.nil_append _)]
        exact List.mem_cons_self
      | cons c rest =>
        obtain ⟨rfl, _⟩ := List.cons.inj here
        exact keeps before _ (rest ++ end') (by simp)

theorem buffLifetime (player : Player) (buffId : Int) (calls : List BuffCall)
    (empty : player.mBuffList = ∅) (beats : 0 < player.mHeartBeat ∧ player.mHeartBeat < 2 ^ 31)
    (positive : ∀ c ∈ calls, c.Positive) :
    (∀ earlier, earlier <+: calls → ∀ k : Nat,
      (buffId ∈ (player.perform (earlier ++ List.replicate k .decayTickBuff)).mBuffList ↔
        Covered player.mHeartBeat buffId (earlier ++ List.replicate k .decayTickBuff))) ↔
    ∀ earlier c later, calls = earlier ++ c :: later → ¬ (player.perform earlier).Outlasts buffId c := by
  constructor
  · intro law earlier c later split outlasts
    have started : earlier ++ [c] <+: calls := ⟨later, by simp [split]⟩
    obtain ⟨k, gone, covered⟩ :=
      outlastsLost empty beats (fun c' mem => positive c' (started.subset mem)) outlasts
    exact gone ((law _ started k).mpr covered)
  · intro keeps earlier started k
    refine listedCovered empty beats (fun c mem => ?_) (keepsDecaying k keeps started)
    rcases List.mem_append.mp mem with old | decay
    · exact positive c (started.subset old)
    · rw [List.eq_of_mem_replicate decay]
      trivial

def resting : Player := ⟨1, 1000, true, ∅⟩

def grantedAgain : List BuffCall := [.addBuff 1 1 2000, .addBuff 1 2 4000, .decayTickBuff,
  .decayTickBuff, .addBuff 2 1 3000, .decayTickBuff]

theorem buffLifetimeAgain :
    1 ∈ (resting.perform grantedAgain).mBuffList ↔ Covered 1000 1 grantedAgain := by
  have law := buffLifetime resting 1 grantedAgain rfl ⟨by decide, by decide⟩ (by decide)
  refine law.mpr ?_ grantedAgain List.prefix_rfl 0
  intro earlier c later split outlasts
  unfold grantedAgain at split
  rcases earlier with _ | ⟨c₁, _ | ⟨c₂, _ | ⟨c₃, _ | ⟨c₄, _ | ⟨c₅, _ | ⟨c₆, earlier⟩⟩⟩⟩⟩⟩ <;>
    first | cases split | simp at split
  · obtain ⟨_, second, listed, _⟩ := outlasts
    cases listed
  · cases outlasts.1
  · exact outlasts
  · exact outlasts
  · obtain ⟨_, second, listed, _⟩ := outlasts
    cases listed
  · exact outlasts

theorem buffRegrantLost : ¬ ∀ (player : Player) (calls : List BuffCall) (buffId : Int),
    player.mBuffList = ∅ → 0 < player.mHeartBeat → (∀ c ∈ calls, c.Positive) →
    (buffId ∈ (player.perform calls).mBuffList ↔ Covered player.mHeartBeat buffId calls) := by
  intro claimed
  have law := claimed resting [.addBuff 1 100 2000, .decayTickBuff, .addBuff 2 100 4000, .decayTickBuff]
    100 rfl (by decide) (by decide)
  have covered : Covered 1000 100
      [.addBuff 1 100 2000, .decayTickBuff, .addBuff 2 100 4000, .decayTickBuff] :=
    ⟨[.addBuff 1 100 2000, .decayTickBuff], 2, 4000, [.decayTickBuff], rfl, by decide⟩
  exact absurd (law.mpr covered) (by decide)

end IocpNetwork.Player
