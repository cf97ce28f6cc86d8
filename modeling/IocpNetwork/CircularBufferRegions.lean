import IocpNetwork.CircularBuffer

/-! What each operation of a valid CircularBuffer does to the two regions: the
unsigned arithmetic never wraps, and each result is given once, case by case. -/
namespace IocpNetwork.CircularBuffer
open ByteMemory
open MachineWords (unsigned unsignedExact addWordExact subWordExact)

variable {w : Nat} {b : CircularBuffer w}

theorem Valid.aFits (v : b.Valid) : b.mARegionSize ≤ b.mCapacity := by
  have := v.aStart
  have := v.aInside
  have := v.bufferEnd
  omega

theorem Valid.bFits (v : b.Valid) {p} (allocated : b.mBRegionPointer = some p) :
    b.mBRegionSize + b.mARegionSize ≤ b.mCapacity := by
  have := v.bInside p allocated
  have := v.aInside
  have := v.bufferEnd
  omega

theorem Valid.storedFits (v : b.Valid) : b.mARegionSize + b.mBRegionSize ≤ b.mCapacity := by
  cases h : b.mBRegionPointer with
  | none => have := v.bNull h; have := v.aFits; omega
  | some p => have := v.bFits h; omega

theorem Valid.aNonempty (v : b.Valid) {p} (allocated : b.mBRegionPointer = some p) :
    0 < b.mARegionSize := by
  rcases Nat.eq_zero_or_pos b.mARegionSize with zero | pos
  · have none := (v.aEmpty zero).2
    rw [allocated] at none
    contradiction
  · exact pos

theorem differenceExact {a c : Nat} (le : a ≤ c) (fits : c - a < 2 ^ w) :
    unsigned w ((c : Int) - a) = c - a := by
  have below : ((c : Int) - a) < (2 : Int) ^ w := by
    have cast : ((c - a : Nat) : Int) < (2 : Int) ^ w := by exact_mod_cast fits
    omega
  have h := unsignedExact (w := w) (x := (c : Int) - a) (by omega) below
  omega

theorem Valid.getAFreeSpace (v : b.Valid) :
    b.getAFreeSpace = b.mBufferEnd - (b.mARegionPointer + b.mARegionSize) := by
  have fits := v.capacityFits
  have stop := v.bufferEnd
  have start := v.aStart
  have inside := v.aInside
  unfold CircularBuffer.getAFreeSpace
  rw [differenceExact (by omega) (by omega), subWordExact (by omega) (by omega)]
  omega

theorem Valid.getSpaceBeforeA (v : b.Valid) : b.getSpaceBeforeA = b.mARegionPointer - b.mBuffer := by
  have fits := v.capacityFits
  have stop := v.bufferEnd
  have inside := v.aInside
  exact differenceExact v.aStart (by omega)

theorem Valid.getBFreeSpace (v : b.Valid) {p} (allocated : b.mBRegionPointer = some p) :
    b.getBFreeSpace = b.mARegionPointer - (p + b.mBRegionSize) := by
  have fits := v.capacityFits
  have stop := v.bufferEnd
  have inside := v.aInside
  obtain ⟨start, before⟩ := v.bInside p allocated
  simp only [CircularBuffer.getBFreeSpace, allocated]
  rw [differenceExact (by omega) (by omega), subWordExact (by omega) (by omega)]
  omega

def writeSpace (b : CircularBuffer w) : Nat :=
  match b.mBRegionPointer with
  | some p => b.mARegionPointer - (p + b.mBRegionSize)
  | none => b.mBufferEnd - (b.mARegionPointer + b.mARegionSize)

theorem allocateBValid (v : b.Valid) (before : b.mBuffer < b.mARegionPointer)
    (free : b.mBRegionPointer = none) : b.allocateB.Valid where
  capacityFits := v.capacityFits
  bufferEnd := v.bufferEnd
  aStart := v.aStart
  aInside := v.aInside
  aEmpty := fun zero => by
    have := (v.aEmpty zero).1
    omega
  bNull := fun h => by cases h
  bInside := fun p h => by
    cases h
    have := v.bNull free
    have := v.aStart
    exact ⟨rfl, by simp only [allocateB]; omega⟩

/- `GetFreeSpaceSize` returns the room at the write position of the state it leaves,
and it leaves B allocated exactly where that gives more room. -/
theorem Valid.getFreeSpaceSizeCases (v : b.Valid) :
    (b.getFreeSpaceSize = (b.writeSpace, b) ∧
      (b.mBRegionPointer = none → b.mARegionPointer - b.mBuffer ≤ b.writeSpace)) ∨
    (b.mBRegionPointer = none ∧ b.writeSpace < b.mARegionPointer - b.mBuffer ∧
      b.getFreeSpaceSize = (b.allocateB.writeSpace, b.allocateB)) := by
  cases h : b.mBRegionPointer with
  | some p =>
    left
    refine ⟨?_, by simp⟩
    simp only [getFreeSpaceSize, writeSpace, h, v.getBFreeSpace h]
    simp
  | none =>
    have size := v.bNull h
    simp only [getFreeSpaceSize, h, v.getAFreeSpace, v.getSpaceBeforeA]
    by_cases more : b.mBufferEnd - (b.mARegionPointer + b.mARegionSize) < b.mARegionPointer - b.mBuffer
    · right
      have valid := allocateBValid v (by omega) h
      refine ⟨trivial, by simpa only [writeSpace, h] using more, ?_⟩
      have space := valid.getBFreeSpace (p := b.mBuffer) rfl
      simp only [more, ne_eq, not_true_eq_false, if_false, if_true, space]
      simp [writeSpace, allocateB]
    · left
      refine ⟨?_, fun _ => by simp only [writeSpace, h]; omega⟩
      simp [more, writeSpace, h]

theorem Valid.getFreeSpaceSizeValid (v : b.Valid) : b.getFreeSpaceSize.2.Valid := by
  rcases v.getFreeSpaceSizeCases with ⟨same, _⟩ | ⟨free, more, allocated⟩
  · rw [same]
    exact v
  · rw [allocated]
    exact allocateBValid v (by omega) free

theorem Valid.getFreeSpaceSizeBlock (v : b.Valid) :
    b.getFreeSpaceSize.2.mBuffer = b.mBuffer ∧ b.getFreeSpaceSize.2.mBufferEnd = b.mBufferEnd := by
  rcases v.getFreeSpaceSizeCases with ⟨same, _⟩ | ⟨_, _, allocated⟩
  · rw [same]
    exact ⟨rfl, rfl⟩
  · rw [allocated]
    exact ⟨rfl, rfl⟩

theorem Valid.getFreeSpaceSizeResult (v : b.Valid) :
    b.getFreeSpaceSize.1 = b.getFreeSpaceSize.2.writeSpace := by
  rcases v.getFreeSpaceSizeCases with ⟨same, _⟩ | ⟨_, _, allocated⟩
  · rw [same]
  · rw [allocated]

theorem allocateBWriteSpace (v : b.Valid) (free : b.mBRegionPointer = none) :
    b.allocateB.writeSpace = b.mARegionPointer - b.mBuffer := by
  have size := v.bNull free
  simp [writeSpace, allocateB, size]

theorem Valid.getFreeSpaceSizeGrows (v : b.Valid) : b.writeSpace ≤ b.getFreeSpaceSize.2.writeSpace := by
  rcases v.getFreeSpaceSizeCases with ⟨same, _⟩ | ⟨free, more, allocated⟩
  · rw [same]
  · rw [allocated, allocateBWriteSpace v free]
    omega

theorem allocateBContent (v : b.Valid) (free : b.mBRegionPointer = none) :
    b.allocateB.content = b.content := by
  have size := v.bNull free
  simp [content, allocateB, free, size]

theorem Valid.getFreeSpaceSizeContent (v : b.Valid) : b.getFreeSpaceSize.2.content = b.content := by
  rcases v.getFreeSpaceSizeCases with ⟨same, _⟩ | ⟨free, _, allocated⟩
  · rw [same]
  · rw [allocated, allocateBContent v free]

theorem Valid.contentLength (v : b.Valid) : b.content.length = b.mARegionSize + b.mBRegionSize := by
  cases h : b.mBRegionPointer with
  | none => simp [content, h, v.bNull h]
  | some p => simp [content, h]

theorem Valid.getStoredSize (v : b.Valid) : b.getStoredSize = b.content.length := by
  have fits := v.capacityFits
  have stored := v.storedFits
  rw [v.contentLength]
  exact addWordExact (by omega)

theorem Valid.sameCapacity (v : b.Valid) {b' : CircularBuffer w} (v' : b'.Valid) (start : b'.mBuffer = b.mBuffer)
    (stop : b'.mBufferEnd = b.mBufferEnd) : b'.mCapacity = b.mCapacity := by
  have first := v.bufferEnd
  have second := v'.bufferEnd
  omega

theorem writeValid (v : b.Valid) (p : Nat) (data : List UInt8) : (b.write p data).Valid where
  capacityFits := v.capacityFits
  bufferEnd := v.bufferEnd
  aStart := v.aStart
  aInside := v.aInside
  aEmpty := v.aEmpty
  bNull := v.bNull
  bInside := v.bInside

theorem Valid.commitB (v : b.Valid) {n p : Nat} (allocated : b.mBRegionPointer = some p)
    (room : n ≤ b.writeSpace) : b.commit n = {b with mBRegionSize := b.mBRegionSize + n} := by
  have fits := v.capacityFits
  have stop := v.bufferEnd
  have inside := v.aInside
  obtain ⟨start, before⟩ := v.bInside p allocated
  simp only [writeSpace, allocated] at room
  have size := addWordExact (w := w) (a := b.mBRegionSize) (b := n) (by omega)
  simp only [commit, allocated, size]

theorem Valid.commitA (v : b.Valid) {n : Nat} (free : b.mBRegionPointer = none)
    (room : n ≤ b.writeSpace) : b.commit n = {b with mARegionSize := b.mARegionSize + n} := by
  have fits := v.capacityFits
  have stop := v.bufferEnd
  have start := v.aStart
  have inside := v.aInside
  simp only [writeSpace, free] at room
  have size := addWordExact (w := w) (a := b.mARegionSize) (b := n) (by omega)
  simp only [commit, free, size]

theorem Valid.commitValid (v : b.Valid) {n : Nat} (room : n ≤ b.writeSpace) : (b.commit n).Valid := by
  cases h : b.mBRegionPointer with
  | some p =>
    obtain ⟨start, before⟩ := v.bInside p h
    rw [v.commitB h room]
    simp only [writeSpace, h] at room
    exact {
      capacityFits := v.capacityFits
      bufferEnd := v.bufferEnd
      aStart := v.aStart
      aInside := v.aInside
      aEmpty := v.aEmpty
      bNull := fun free => by rw [h] at free; cases free
      bInside := fun q hq => by
        rw [h] at hq
        cases hq
        exact ⟨start, by simp only; omega⟩ }
  | none =>
    have inside := v.aInside
    rw [v.commitA h room]
    simp only [writeSpace, h] at room
    exact {
      capacityFits := v.capacityFits
      bufferEnd := v.bufferEnd
      aStart := v.aStart
      aInside := by simp only; omega
      aEmpty := fun zero => v.aEmpty (by simp only at zero; omega)
      bNull := v.bNull
      bInside := v.bInside }

def Stored (b : CircularBuffer w) (a : Nat) : Prop :=
  (b.mARegionPointer ≤ a ∧ a < b.mARegionPointer + b.mARegionSize) ∨
  ∃ p, b.mBRegionPointer = some p ∧ p ≤ a ∧ a < p + b.mBRegionSize

theorem Valid.writeRangeInside (v : b.Valid) :
    b.mBuffer ≤ b.getBuffer ∧ b.getBuffer + b.writeSpace ≤ b.mBufferEnd := by
  have start := v.aStart
  have inside := v.aInside
  cases h : b.mBRegionPointer with
  | some p =>
    obtain ⟨same, before⟩ := v.bInside p h
    simp only [getBuffer, writeSpace, h]
    omega
  | none =>
    simp only [getBuffer, writeSpace, h]
    omega

theorem Valid.writeRangeFree (v : b.Valid) {a : Nat} (low : b.getBuffer ≤ a)
    (high : a < b.getBuffer + b.writeSpace) : ¬ b.Stored a := by
  cases h : b.mBRegionPointer with
  | some p =>
    obtain ⟨same, before⟩ := v.bInside p h
    simp only [getBuffer, writeSpace, h] at low high
    rintro (inA | ⟨q, hq, inB⟩)
    · omega
    · rw [h] at hq
      cases hq
      omega
  | none =>
    simp only [getBuffer, writeSpace, h] at low high
    rintro (inA | ⟨q, hq, _⟩)
    · omega
    · rw [h] at hq
      cases hq

theorem contentCongr {memory : Nat → UInt8} (same : ∀ a, b.Stored a → memory a = b.memory a) :
    ({b with memory := memory} : CircularBuffer w).content = b.content := by
  have inA : bytesAt memory b.mARegionPointer b.mARegionSize =
      bytesAt b.memory b.mARegionPointer b.mARegionSize :=
    bytesAtCongr fun a low high => same a (.inl ⟨low, high⟩)
  cases h : b.mBRegionPointer with
  | none => simp only [content, h, inA]
  | some p =>
    have inB : bytesAt memory p b.mBRegionSize = bytesAt b.memory p b.mBRegionSize :=
      bytesAtCongr fun a low high => same a (.inr ⟨p, h, low, high⟩)
    simp only [content, h, inA, inB]

theorem Valid.writeContent (v : b.Valid) {data : List UInt8} (room : data.length ≤ b.writeSpace) :
    (b.write b.getBuffer data).content = b.content := by
  apply contentCongr
  intro a stored
  apply storeOutside
  by_contra inside
  exact v.writeRangeFree (a := a) (by omega) (by omega) stored

theorem Valid.writeCommitContent (v : b.Valid) {data : List UInt8}
    (room : data.length ≤ b.writeSpace) :
    ((b.write b.getBuffer data).commit data.length).content = b.content ++ data := by
  have valid := writeValid v b.getBuffer data
  have same := v.writeContent room
  have written := storeInside b.memory b.getBuffer data
  cases h : b.mBRegionPointer with
  | some p =>
    have grown := valid.commitB (n := data.length) h room
    simp only [getBuffer, h] at same written grown ⊢
    rw [grown, ← same]
    simp only [content, write, h, bytesAtAdd, written, List.append_assoc]
  | none =>
    have grown := valid.commitA (n := data.length) h room
    simp only [getBuffer, h] at same written grown ⊢
    rw [grown, ← same]
    simp only [content, write, h, bytesAtAdd, written, List.append_nil]

/- `Remove` in the three cases that a valid buffer distinguishes: A keeps bytes; A is
emptied and what B keeps becomes A; nothing is left. -/
theorem Valid.removeInA (v : b.Valid) {len : Nat} (less : len < b.mARegionSize) :
    b.remove len = {b with
      mARegionSize := b.mARegionSize - len
      mARegionPointer := b.mARegionPointer + len} := by
  have fits := v.capacityFits
  have stored := v.aFits
  have taken : b.aRemove len = len := if_neg (by omega)
  have size := subWordExact (w := w) (Nat.le_of_lt less) (by omega)
  have rest := subWordExact (w := w) (Nat.le_refl len) (by omega)
  have pos : b.mARegionSize > 0 := by omega
  have kept : b.mARegionSize - len ≠ 0 := by omega
  simp only [remove, removeA, if_pos pos, taken, size, rest]
  simp [removeB, settle, kept]

theorem Valid.removeA (v : b.Valid) {len : Nat} (fitsLen : len < 2 ^ w)
    (all : b.mARegionSize ≤ len) :
    b.removeA len = ({b with
      mARegionSize := 0
      mARegionPointer := b.mARegionPointer + b.mARegionSize}, len - b.mARegionSize) := by
  have fits := v.capacityFits
  have stored := v.aFits
  by_cases pos : b.mARegionSize > 0
  · have taken : b.aRemove len = b.mARegionSize := by
      unfold aRemove
      split <;> omega
    have size := subWordExact (w := w) (Nat.le_refl b.mARegionSize) (by omega)
    have rest := subWordExact (w := w) all fitsLen
    simp [CircularBuffer.removeA, pos, taken, size, rest]
  · have zero : b.mARegionSize = 0 := by omega
    cases b
    simp only at zero
    subst zero
    simp [CircularBuffer.removeA]

theorem Valid.removePromotes (v : b.Valid) {len : Nat} (fitsLen : len < 2 ^ w)
    (all : b.mARegionSize ≤ len) (less : len < b.mARegionSize + b.mBRegionSize) :
    b.remove len = {b with
      memory := move b.memory b.mBuffer (b.mBuffer + (len - b.mARegionSize))
        (b.mBRegionSize - (len - b.mARegionSize))
      mARegionPointer := b.mBuffer
      mARegionSize := b.mBRegionSize - (len - b.mARegionSize)
      mBRegionPointer := none
      mBRegionSize := 0} := by
  cases allocated : b.mBRegionPointer with
  | none => have := v.bNull allocated; omega
  | some p =>
    obtain ⟨start, before⟩ := v.bInside p allocated
    have fits := v.capacityFits
    have stored := v.bFits allocated
    subst p
    have kept : 0 < b.mBRegionSize - (len - b.mARegionSize) := by omega
    simp only [remove, v.removeA fitsLen all]
    by_cases more : 0 < len - b.mARegionSize
    · have taken : (if len - b.mARegionSize > b.mBRegionSize then b.mBRegionSize
          else len - b.mARegionSize) = len - b.mARegionSize := if_neg (by omega)
      have size := subWordExact (w := w) (a := b.mBRegionSize) (b := len - b.mARegionSize)
        (by omega) (by omega)
      have pos : 0 < b.mBRegionSize := by omega
      simp only [removeB, bRemove, settle, allocated]
      simp [more, pos, taken, size, kept]
      intro zero
      omega
    · have cut : len - b.mARegionSize = 0 := by omega
      have pos : 0 < b.mBRegionSize := by omega
      simp only [removeB, settle, allocated, cut]
      simp [pos, moveSelf]

theorem Valid.removeEmpties (v : b.Valid) {len : Nat} (fitsLen : len < 2 ^ w)
    (all : b.mARegionSize + b.mBRegionSize ≤ len) :
    b.remove len = {b with
      mARegionPointer := b.mBuffer
      mARegionSize := 0
      mBRegionPointer := none
      mBRegionSize := 0} := by
  have fits := v.capacityFits
  have stored := v.storedFits
  simp only [remove, v.removeA fitsLen (by omega)]
  by_cases pos : 0 < b.mBRegionSize
  · have more : 0 < len - b.mARegionSize := by omega
    have taken : (if len - b.mARegionSize > b.mBRegionSize then b.mBRegionSize
        else len - b.mARegionSize) = b.mBRegionSize := by split <;> omega
    have size := subWordExact (w := w) (Nat.le_refl b.mBRegionSize) (by omega)
    simp [removeB, bRemove, settle, more, pos, taken, size]
  · have zero : b.mBRegionSize = 0 := by omega
    simp [removeB, settle, zero]

theorem Valid.removeCases (v : b.Valid) {len : Nat} (fitsLen : len < 2 ^ w) :
    (len < b.mARegionSize ∧ b.remove len = {b with
      mARegionSize := b.mARegionSize - len
      mARegionPointer := b.mARegionPointer + len}) ∨
    (b.mARegionSize ≤ len ∧ len < b.mARegionSize + b.mBRegionSize ∧ b.remove len = {b with
      memory := move b.memory b.mBuffer (b.mBuffer + (len - b.mARegionSize))
        (b.mBRegionSize - (len - b.mARegionSize))
      mARegionPointer := b.mBuffer
      mARegionSize := b.mBRegionSize - (len - b.mARegionSize)
      mBRegionPointer := none
      mBRegionSize := 0}) ∨
    (b.mARegionSize + b.mBRegionSize ≤ len ∧ b.remove len = {b with
      mARegionPointer := b.mBuffer
      mARegionSize := 0
      mBRegionPointer := none
      mBRegionSize := 0}) := by
  rcases Nat.lt_or_ge len b.mARegionSize with inA | all
  · exact .inl ⟨inA, v.removeInA inA⟩
  · rcases Nat.lt_or_ge len (b.mARegionSize + b.mBRegionSize) with inB | everything
    · exact .inr (.inl ⟨all, inB, v.removePromotes fitsLen all inB⟩)
    · exact .inr (.inr ⟨everything, v.removeEmpties fitsLen everything⟩)

theorem Valid.removeBlock (v : b.Valid) {len : Nat} (fitsLen : len < 2 ^ w) :
    (b.remove len).mBuffer = b.mBuffer ∧ (b.remove len).mBufferEnd = b.mBufferEnd := by
  rcases v.removeCases fitsLen with ⟨_, same⟩ | ⟨_, _, same⟩ | ⟨_, same⟩ <;> rw [same] <;> exact ⟨rfl, rfl⟩

theorem Valid.removeValid (v : b.Valid) {len : Nat} (fitsLen : len < 2 ^ w) :
    (b.remove len).Valid := by
  have start := v.aStart
  have inside := v.aInside
  have stop := v.bufferEnd
  have stored := v.storedFits
  rcases v.removeCases fitsLen with ⟨inA, same⟩ | ⟨all, inB, same⟩ | ⟨all, same⟩
  · rw [same]
    exact {
      capacityFits := v.capacityFits
      bufferEnd := v.bufferEnd
      aStart := by simp only; omega
      aInside := by simp only; omega
      aEmpty := fun zero => by simp only at zero; omega
      bNull := v.bNull
      bInside := fun p h => ⟨(v.bInside p h).1, Nat.le_trans (v.bInside p h).2 (Nat.le_add_right _ _)⟩ }
  · rw [same]
    exact restartValid v.capacityFits v.bufferEnd rfl (by simp only; omega) rfl rfl
  · rw [same]
    exact restartValid v.capacityFits v.bufferEnd rfl (by simp only; omega) rfl rfl

theorem Valid.removeContent (v : b.Valid) {len : Nat} (fitsLen : len < 2 ^ w) :
    (b.remove len).content = b.content.drop len := by
  rcases v.removeCases fitsLen with ⟨inA, same⟩ | ⟨all, inB, same⟩ | ⟨all, same⟩
  · rw [same]
    simp only [content]
    rw [List.drop_append_of_le_length (by simp; omega), bytesAtDrop]
  · cases allocated : b.mBRegionPointer with
    | none => have := v.bNull allocated; omega
    | some p =>
      obtain ⟨rfl, _⟩ := v.bInside p allocated
      rw [same]
      simp only [content, allocated, List.append_nil, moveInside]
      rw [List.drop_append, List.drop_of_length_le (by simp; omega), List.nil_append, bytesAtDrop,
        bytesAtLength]
  · rw [same, List.drop_of_length_le (by rw [v.contentLength]; omega)]
    simp [content]

end IocpNetwork.CircularBuffer
