import Mathlib.Data.Nat.Digits.Defs
import Mathlib.Tactic.Common

/-! Flat memory, a cell for every address: ranges read as lists, lists stored over
ranges, overlapping moves, and fixed-width little-endian words. -/
namespace ByteMemory

section Ranges
variable {β : Type*}

def bytesAt (memory : Nat → β) (p n : Nat) : List β := (List.range n).map fun i => memory (p + i)

def store (memory : Nat → β) (p : Nat) (data : List β) : Nat → β :=
  fun a => if p ≤ a then (data[a - p]?).getD (memory a) else memory a

def move (memory : Nat → β) (dst src n : Nat) : Nat → β :=
  store memory dst (bytesAt memory src n)

@[simp] theorem bytesAtLength (memory : Nat → β) (p n : Nat) : (bytesAt memory p n).length = n := by
  simp [bytesAt]

@[simp] theorem bytesAtZero (memory : Nat → β) (p : Nat) : bytesAt memory p 0 = [] := rfl

theorem bytesAtIndex (memory : Nat → β) {p n i : Nat} (inside : i < n) :
    (bytesAt memory p n)[i]? = some (memory (p + i)) := by
  simp [bytesAt, inside]

theorem bytesAtAdd (memory : Nat → β) (p m n : Nat) :
    bytesAt memory p (m + n) = bytesAt memory p m ++ bytesAt memory (p + m) n := by
  simp [bytesAt, List.range_add, Function.comp_def, Nat.add_assoc]

theorem bytesAtDrop (memory : Nat → β) (p n k : Nat) :
    (bytesAt memory p n).drop k = bytesAt memory (p + k) (n - k) := by
  rcases Nat.le_total k n with le | le
  · have split : n = k + (n - k) := by omega
    rw [split, bytesAtAdd, List.drop_left' (by simp)]
    simp
  · have zero : n - k = 0 := by omega
    rw [List.drop_of_length_le (by simpa using le), zero, bytesAtZero]

theorem bytesAtTake (memory : Nat → β) {p n k : Nat} (le : k ≤ n) :
    (bytesAt memory p n).take k = bytesAt memory p k := by
  have split : n = k + (n - k) := by omega
  rw [split, bytesAtAdd, List.take_left' (by simp)]

theorem bytesAtCongr {memory other : Nat → β} {p n : Nat}
    (same : ∀ a, p ≤ a → a < p + n → other a = memory a) :
    bytesAt other p n = bytesAt memory p n := by
  apply List.map_congr_left
  intro i mem
  have inside := List.mem_range.mp mem
  exact same _ (by omega) (by omega)

theorem storeOutside (memory : Nat → β) {p : Nat} {data : List β} {a : Nat}
    (outside : a < p ∨ p + data.length ≤ a) : store memory p data a = memory a := by
  unfold store
  split
  · have none : data[a - p]? = none := List.getElem?_eq_none (by omega)
    simp [none]
  · rfl

theorem storeInside (memory : Nat → β) (p : Nat) (data : List β) :
    bytesAt (store memory p data) p data.length = data := by
  apply List.ext_getElem?
  intro i
  rcases Nat.lt_or_ge i data.length with lt | ge
  · rw [bytesAtIndex _ lt]
    simp [store, lt]
  · rw [List.getElem?_eq_none (by simpa using ge), List.getElem?_eq_none ge]

theorem storeNil (memory : Nat → β) (p : Nat) : store memory p [] = memory := by
  funext a
  exact storeOutside memory (by simp; omega)

theorem storeAppend (memory : Nat → β) (p : Nat) (first second : List β) :
    store (store memory p first) (p + first.length) second = store memory p (first ++ second) := by
  funext a
  rcases Nat.lt_or_ge a (p + first.length) with lt | ge
  · rw [storeOutside _ (.inl lt)]
    unfold store
    split
    · rw [List.getElem?_append_left (by omega)]
    · rfl
  · have behind : a - (p + first.length) = a - p - first.length := by omega
    have before : p ≤ a := by omega
    unfold store
    rw [if_pos ge, if_pos before, if_pos before, List.getElem?_append_right (by omega), behind,
      List.getElem?_eq_none (l := first) (by omega)]
    rfl

theorem bytesAtStore (memory : Nat → β) {p q n : Nat} {data : List β}
    (apart : p + data.length ≤ q ∨ q + n ≤ p) :
    bytesAt (store memory p data) q n = bytesAt memory q n :=
  bytesAtCongr fun _ _ _ => storeOutside memory (by omega)

theorem moveInside (memory : Nat → β) (dst src n : Nat) :
    bytesAt (move memory dst src n) dst n = bytesAt memory src n := by
  have h := storeInside memory dst (bytesAt memory src n)
  rwa [bytesAtLength] at h

theorem moveSelf (memory : Nat → β) (p n : Nat) : move memory p p n = memory := by
  funext a
  rcases Nat.lt_or_ge a p with lt | ge
  · exact storeOutside memory (.inl lt)
  · rcases Nat.lt_or_ge (a - p) n with inside | outside
    · simp only [move, store, if_pos ge, bytesAtIndex memory inside, Option.getD_some]
      rw [Nat.add_sub_cancel' ge]
    · exact storeOutside memory (.inr (by rw [bytesAtLength]; omega))

end Ranges

section Words

def encode (width value : Nat) : List UInt8 :=
  (List.range width).map fun i => UInt8.ofNat (value / 256 ^ i)

def decode (bytes : List UInt8) : Nat := Nat.ofDigits 256 (bytes.map UInt8.toNat)

def readWord (memory : Nat → UInt8) (width p : Nat) : Nat := decode (bytesAt memory p width)

def writeWord (memory : Nat → UInt8) (width p value : Nat) : Nat → UInt8 :=
  store memory p (encode width value)

@[simp] theorem encodeLength (width value : Nat) : (encode width value).length = width := by
  simp [encode]

theorem encodeSucc (width value : Nat) :
    encode (width + 1) value = UInt8.ofNat value :: encode width (value / 256) := by
  simp [encode, List.range_succ_eq_map, Function.comp_def, Nat.pow_succ', Nat.div_div_eq_div_mul]

theorem decodeEncode {width value : Nat} (fits : value < 256 ^ width) :
    decode (encode width value) = value := by
  induction width generalizing value with
  | zero => simp at fits; subst value; rfl
  | succ width ih =>
    have high : value / 256 < 256 ^ width := Nat.div_lt_of_lt_mul (by rwa [← Nat.pow_succ'])
    have tail := ih high
    unfold decode at tail ⊢
    rw [encodeSucc, List.map_cons, Nat.ofDigits_cons, tail]
    have low : (UInt8.ofNat value).toNat = value % 256 := by simp
    rw [low]
    exact Nat.mod_add_div value 256

theorem readWritten (memory : Nat → UInt8) {width p value : Nat} (fits : value < 256 ^ width) :
    readWord (writeWord memory width p value) width p = value := by
  have h := storeInside memory p (encode width value)
  rw [encodeLength] at h
  unfold readWord writeWord
  rw [h, decodeEncode fits]

theorem readElsewhere (memory : Nat → UInt8) {width p q value : Nat}
    (apart : p + width ≤ q ∨ q + width ≤ p) :
    readWord (writeWord memory width p value) width q = readWord memory width q := by
  unfold readWord writeWord
  rw [bytesAtStore memory (by simpa using apart)]

theorem readWordCongr {memory other : Nat → UInt8} {width p : Nat}
    (same : ∀ a, p ≤ a → a < p + width → other a = memory a) :
    readWord other width p = readWord memory width p := by
  unfold readWord
  rw [bytesAtCongr same]

end Words

end ByteMemory
