import IocpNetwork.Lib.ThreadCount
import IocpNetwork.Lib.Runs

/-! FastSpinLock.hpp, one text for both servers: EnterWriteLock and LeaveWriteLock over
the atomic accesses to mLockFlag. mLockOrder decides nothing, the calls behind it are
commented out. -/
namespace IocpNetwork.FastSpinLock
open ThreadCount
open Runs (Reachable)

def lfWriteMask : BitVec 32 := 0x7FF00000#32
def lfWriteFlag : BitVec 32 := 0x00100000#32
def lfReadMask : BitVec 32 := 0x000FFFFF#32

/- InterlockedAdd returns the new value. -/
def interlockedAdd (mLockFlag value : BitVec 32) : BitVec 32 := mLockFlag + value

/- The next atomic access of a thread: none, the reads of the first loop, the add, the
add that takes a lost attempt back, the reads of the second loop, the add of
LeaveWriteLock. -/
inductive Pc where
  | outside
  | waitingWriter
  | adding
  | undoing
  | waitingReaders
  | critical
  deriving DecidableEq, Repr

structure State (T : Type*) where
  mLockFlag : BitVec 32
  pc : T → Pc

variable {T : Type*}

def initial : State T := ⟨0, fun _ => .outside⟩

def access (mLockFlag : BitVec 32) : Pc → BitVec 32 × Pc
  | .outside => (mLockFlag, .waitingWriter)
  | .waitingWriter => (mLockFlag, if mLockFlag &&& lfWriteMask ≠ 0 then .waitingWriter else .adding)
  | .adding =>
      let mLockFlag := interlockedAdd mLockFlag lfWriteFlag
      (mLockFlag, if mLockFlag &&& lfWriteMask = lfWriteFlag then .waitingReaders else .undoing)
  | .undoing => (interlockedAdd mLockFlag (-lfWriteFlag), .waitingWriter)
  | .waitingReaders => (mLockFlag, if mLockFlag &&& lfReadMask ≠ 0 then .waitingReaders else .critical)
  | .critical => (interlockedAdd mLockFlag (-lfWriteFlag), .outside)

def State.advance [DecidableEq T] (s : State T) (t : T) : State T where
  mLockFlag := (access s.mLockFlag (s.pc t)).1
  pc := Function.update s.pc t (access s.mLockFlag (s.pc t)).2

def Step [DecidableEq T] (s : State T) (t : T) (s' : State T) : Prop := s' = s.advance t

def Owning : Pc → Prop
  | .waitingReaders | .critical => True
  | .outside | .waitingWriter | .adding | .undoing => False

def Added : Pc → Prop
  | .undoing | .waitingReaders | .critical => True
  | .outside | .waitingWriter | .adding => False

instance : DecidablePred Owning := fun pc => by cases pc <;> unfold Owning <;> infer_instance
instance : DecidablePred Added := fun pc => by cases pc <;> unfold Added <;> infer_instance

def word (n : Nat) : BitVec 32 := BitVec.ofNat 32 (0x00100000 * n)

/- The mask sees the eleven low bits of the number of contenders. -/
theorem wordShift (n : Nat) : word n = BitVec.ofNat 32 n <<< 20 := by
  apply BitVec.eq_of_toNat_eq
  rw [word, BitVec.toNat_ofNat, BitVec.toNat_shiftLeft, BitVec.toNat_ofNat, Nat.shiftLeft_eq,
    Nat.mul_comm, Nat.mod_mul_mod]

theorem lowBits (n : Nat) : (BitVec.ofNat 32 n &&& 2047#32).toNat = n % 2048 := by
  rw [BitVec.toNat_and, BitVec.toNat_ofNat]
  have field : n % 2 ^ 32 &&& 2 ^ 11 - 1 = n % 2 ^ 32 % 2 ^ 11 := Nat.and_two_pow_sub_one_eq_mod _ 11
  exact field.trans (Nat.mod_mod_of_dvd n (Nat.pow_dvd_pow 2 (by decide)))

theorem writeField (n : Nat) : (word n &&& lfWriteMask).toNat = 0x00100000 * (n % 2048) := by
  have mask : lfWriteMask = 2047#32 <<< 20 := by decide
  have small : n % 2048 < 2048 := Nat.mod_lt _ (by decide)
  rw [wordShift, mask, ← BitVec.shiftLeft_and_distrib, BitVec.toNat_shiftLeft, lowBits, Nat.shiftLeft_eq]
  rw [Nat.mod_eq_of_lt (by omega), Nat.mul_comm]

theorem writeTest (n : Nat) : word n &&& lfWriteMask = lfWriteFlag ↔ n % 2048 = 1 := by
  have field := writeField n
  constructor
  · intro same
    rw [same] at field
    have flag : lfWriteFlag.toNat = 0x00100000 := by decide
    omega
  · intro one
    apply BitVec.eq_of_toNat_eq
    rw [field, one]
    decide

theorem wordAdd (n : Nat) : interlockedAdd (word n) lfWriteFlag = word (n + 1) := by
  unfold word
  rw [Nat.mul_add_one, BitVec.ofNat_add]
  rfl

theorem accessAdding (n : Nat) : access (word n) .adding =
    (word (n + 1), if (n + 1) % 2048 = 1 then .waitingReaders else .undoing) := by
  simp only [access, wordAdd]
  by_cases alone : (n + 1) % 2048 = 1
  · rw [if_pos alone, if_pos ((writeTest _).mpr alone)]
  · rw [if_neg alone, if_neg fun test => alone ((writeTest _).mp test)]

theorem wordSub (n : Nat) : interlockedAdd (word (n + 1)) (-lfWriteFlag) = word n := by
  have cancel : lfWriteFlag + -lfWriteFlag = 0#32 := by decide
  rw [← wordAdd, interlockedAdd, interlockedAdd, BitVec.add_assoc, cancel, BitVec.add_zero]

section Counting
variable [Fintype T]

def State.added (s : State T) : Nat := count Added s.pc
def State.owners (s : State T) : Nat := count Owning s.pc

structure Exclusive (s : State T) : Prop where
  flag : s.mLockFlag = word s.added
  oneOwner : s.owners ≤ 1

theorem ownersAdded (s : State T) : s.owners ≤ s.added :=
  countMono fun pc owning => by cases pc <;> first | exact trivial | exact absurd owning id

theorem initialExclusive : Exclusive (initial : State T) where
  flag := by
    have none : (initial : State T).added = 0 := countNone fun _ added => added
    rw [none]
    rfl
  oneOwner := by
    have none : (initial : State T).owners = 0 := countNone fun _ owning => owning
    omega

variable [DecidableEq T]

theorem advanceAdded (s : State T) (t : T) :
    (s.advance t).added + (if Added (s.pc t) then 1 else 0) =
      s.added + if Added (access s.mLockFlag (s.pc t)).2 then 1 else 0 := countUpdate t _

theorem advanceOwners (s : State T) (t : T) :
    (s.advance t).owners + (if Owning (s.pc t) then 1 else 0) =
      s.owners + if Owning (access s.mLockFlag (s.pc t)).2 then 1 else 0 := countUpdate t _

theorem Exclusive.advanceQuiet {s : State T} (exclusive : Exclusive s) {t : T}
    (flag : (access s.mLockFlag (s.pc t)).1 = s.mLockFlag)
    (added : Added (access s.mLockFlag (s.pc t)).2 ↔ Added (s.pc t))
    (owning : Owning (access s.mLockFlag (s.pc t)).2 ↔ Owning (s.pc t)) :
    Exclusive (s.advance t) := by
  have counted := advanceAdded s t
  have owners := advanceOwners s t
  simp only [added] at counted
  simp only [owning] at owners
  refine ⟨?_, ?_⟩
  · have same : (s.advance t).added = s.added := by omega
    rw [same, ← exclusive.flag]
    exact flag
  · have one := exclusive.oneOwner
    omega

/- The add of EnterWriteLock. With at most 2048 threads the field does not wrap, so the
test succeeds only for the thread that is alone. -/
theorem Exclusive.advanceAdding {s : State T} (few : Fintype.card T ≤ 2048)
    (exclusive : Exclusive s) {t : T} (at_ : s.pc t = .adding) : Exclusive (s.advance t) := by
  have goes := accessAdding s.added
  rw [← exclusive.flag, ← at_] at goes
  have counted := advanceAdded s t
  have owners := advanceOwners s t
  have before := ownersAdded s
  have one := exclusive.oneOwner
  have bounded : (s.advance t).added ≤ Fintype.card T := countBounded
  have flag : (s.advance t).mLockFlag = word (s.added + 1) := by
    simp only [State.advance, goes]
  have notAdded : ¬ Added (s.pc t) := by simp [at_, Added]
  have notOwning : ¬ Owning (s.pc t) := by simp [at_, Owning]
  rw [goes, if_neg notAdded] at counted
  rw [goes, if_neg notOwning] at owners
  have more : (s.advance t).added = s.added + 1 := by
    split at counted <;> simpa [Added] using counted
  refine ⟨by rw [flag, more], ?_⟩
  by_cases alone : (s.added + 1) % 2048 = 1
  · simp only [if_pos alone] at owners
    have first : (if Owning .waitingReaders then 1 else 0) = 1 := rfl
    omega
  · simp only [if_neg alone] at owners
    have lost : (if Owning .undoing then 1 else 0) = 0 := rfl
    omega

theorem Exclusive.advanceSubtracting {s : State T} (exclusive : Exclusive s) {t : T}
    (added : Added (s.pc t)) {next : Pc}
    (goes : access s.mLockFlag (s.pc t) = (interlockedAdd s.mLockFlag (-lfWriteFlag), next))
    (outside : ¬ Added next) : Exclusive (s.advance t) := by
  have counted := advanceAdded s t
  have owners := advanceOwners s t
  have one := exclusive.oneOwner
  have notOwning : ¬ Owning next := by cases next <;> first | exact id | exact absurd trivial outside
  simp only [goes, if_pos added, if_neg outside, if_neg notOwning] at counted owners
  refine ⟨?_, by omega⟩
  have split : s.added = (s.advance t).added + 1 := by omega
  have flag := exclusive.flag
  rw [split] at flag
  have left : (s.advance t).mLockFlag = interlockedAdd s.mLockFlag (-lfWriteFlag) := by
    simp only [State.advance, goes]
  rw [left, flag, wordSub]

theorem stepExclusive (few : Fintype.card T ≤ 2048) (s : State T) (t : T) (s' : State T)
    (exclusive : Exclusive s) (h : Step s t s') : Exclusive s' := by
  cases h
  cases at_ : s.pc t with
  | outside =>
    exact exclusive.advanceQuiet (t := t) (by simp [at_, access]) (by simp [at_, access, Added])
      (by simp [at_, access, Owning])
  | waitingWriter =>
    refine exclusive.advanceQuiet (t := t) (by simp [at_, access]) ?_ ?_ <;>
      simp only [at_, access] <;> split <;> simp [Added, Owning]
  | adding => exact exclusive.advanceAdding few at_
  | undoing => exact exclusive.advanceSubtracting (t := t) (by simp [at_, Added]) (by rw [at_]; rfl) id
  | waitingReaders =>
    refine exclusive.advanceQuiet (t := t) (by simp [at_, access]) ?_ ?_ <;>
      simp only [at_, access] <;> split <;> simp [Added, Owning]
  | critical => exact exclusive.advanceSubtracting (t := t) (by simp [at_, Added]) (by rw [at_]; rfl) id

theorem writeLockExclusive (few : Fintype.card T ≤ 2048) (s : State T)
    (reach : Reachable Step (initial : State T) s) :
    (∀ t u, Owning (s.pc t) → Owning (s.pc u) → t = u) ∧
    s.mLockFlag = BitVec.ofNat 32 (0x00100000 * (Finset.univ.filter fun t => Added (s.pc t)).card) ∧
    ((∀ t, s.pc t = .outside) → s.mLockFlag = 0) := by
  have exclusive := reach.invariant (stepExclusive few) initialExclusive
  refine ⟨fun t u => countAtMostOne exclusive.oneOwner, exclusive.flag, fun idle => ?_⟩
  have none : s.added = 0 := countNone fun t added => by simp [idle t, Added] at added
  rw [exclusive.flag, none]
  rfl

end Counting

theorem writeLockExclusiveContended : ∃ s : State (Fin 2),
    Reachable Step initial s ∧ s.pc 0 = .critical ∧ s.pc 1 = .undoing ∧
    (∀ t, Owning (s.pc t) → t = 0) := by
  have run : ∃ s : State (Fin 2), Reachable Step initial s ∧ s.pc 0 = .critical ∧ s.pc 1 = .undoing :=
    ⟨_, ⟨_, .more (a := 0) rfl (.more (a := 1) rfl (.more (a := 0) rfl (.more (a := 1) rfl
      (.more (a := 0) rfl (.more (a := 1) rfl (.more (a := 0) rfl (.done _)))))))⟩, by decide, by decide⟩
  obtain ⟨s, reach, first, second⟩ := run
  refine ⟨s, reach, first, second, fun t owning => ?_⟩
  exact (writeLockExclusive (by decide) s reach).1 t 0 owning (by rw [first]; exact trivial)

end IocpNetwork.FastSpinLock
