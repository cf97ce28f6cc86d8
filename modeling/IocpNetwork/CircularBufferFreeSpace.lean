import IocpNetwork.CircularBufferQueue

/-! GetFreeSpaceSize over whole runs. It changes the buffer, but only to the state that
the next append would choose anyway, so no later result tells how often it was called;
and the tail that it gives up behind A stays the smaller part of the buffer. -/
namespace IocpNetwork.CircularBuffer
open Runs (Run Reachable Padded actions)

variable {w : Nat} {b b' : CircularBuffer w}

theorem Valid.getFreeSpaceSizeTwice (v : b.Valid) :
    b.getFreeSpaceSize.2.getFreeSpaceSize = b.getFreeSpaceSize := by
  rcases v.getFreeSpaceSizeCases with ⟨same, _⟩ | ⟨free, more, allocated⟩
  · simp only [same]
  · have valid := allocateBValid v (by omega) free
    rcases valid.getFreeSpaceSizeCases with ⟨same, _⟩ | ⟨free', _⟩
    · rw [allocated, same]
    · cases free'

def Asked (b b' : CircularBuffer w) : Prop := b.Valid ∧ (b' = b ∨ b' = b.getFreeSpaceSize.2)

theorem Asked.freeSpace (asked : Asked b b') : b'.getFreeSpaceSize = b.getFreeSpaceSize := by
  obtain ⟨v, rfl | rfl⟩ := asked
  · rfl
  · exact v.getFreeSpaceSizeTwice

theorem Asked.append (asked : Asked b b') (data : List UInt8) : b'.append data = b.append data := by
  unfold CircularBuffer.append
  rw [asked.freeSpace]

theorem allocateBRemove (v : b.Valid) (free : b.mBRegionPointer = none)
    (more : b.writeSpace < b.mARegionPointer - b.mBuffer) {len : Nat} (fitsLen : len < 2 ^ w) :
    Asked (b.remove len) (b.allocateB.remove len) := by
  have size := v.bNull free
  have valid := allocateBValid v (by omega) free
  refine ⟨v.removeValid fitsLen, ?_⟩
  rcases v.removeCases fitsLen with ⟨inA, same⟩ | ⟨_, inB, _⟩ | ⟨all, same⟩
  · right
    have after := v.removeValid fitsLen
    rw [valid.removeInA inA]
    rw [same] at after ⊢
    rcases after.getFreeSpaceSizeCases with ⟨_, less⟩ | ⟨_, _, allocated⟩
    · have tail := less free
      simp only [writeSpace, free] at more tail
      omega
    · rw [allocated]
      rfl
  · omega
  · left
    rw [valid.removeEmpties fitsLen all, same]
    rfl

theorem Asked.remove (asked : Asked b b') {len : Nat} (fitsLen : len < 2 ^ w) :
    Asked (b.remove len) (b'.remove len) := by
  obtain ⟨v, rfl | rfl⟩ := asked
  · exact ⟨v.removeValid fitsLen, .inl rfl⟩
  · rcases v.getFreeSpaceSizeCases with ⟨same, _⟩ | ⟨free, more, allocated⟩
    · rw [same]
      exact ⟨v.removeValid fitsLen, .inl rfl⟩
    · rw [allocated]
      exact allocateBRemove v free more fitsLen

theorem Asked.query (asked : Asked b b') : Asked b b'.getFreeSpaceSize.2 :=
  ⟨asked.1, .inr (congrArg Prod.snd asked.freeSpace)⟩

theorem Asked.matched (b b' : CircularBuffer w) (op : Op w) (c : CircularBuffer w)
    (asked : Asked b b') (h : Step b op c) : ∃ c', Step b' op c' ∧ Asked c c' := by
  cases h with
  | append data room =>
    have room' : data.length ≤ b'.getFreeSpaceSize.1 := by rwa [asked.freeSpace]
    refine ⟨_, .append b' data room', asked.1.appendValid room, .inl (asked.append data)⟩
  | remove len => exact ⟨_, .remove b' len, asked.remove len.isLt⟩
  | query q =>
    refine ⟨_, .query b' q, ?_⟩
    cases q with
    | freeSpaceSize =>
      exact ⟨asked.1.getFreeSpaceSizeValid, .inl (congrArg Prod.snd asked.freeSpace)⟩
    | storedSize | contiguiousBytes | buffer | bufferStart => exact asked

def Extra (op : Op w) : Prop := op = .query .freeSpaceSize

theorem Asked.stays (b b' : CircularBuffer w) (op : Op w) (asked : Asked b b') (extra : Extra op) :
    ∃ c', Step b' op c' ∧ Asked b c' := by
  obtain rfl := extra
  exact ⟨_, .query b' .freeSpaceSize, asked.query⟩

theorem stepFunctional (b : CircularBuffer w) (op : Op w) (c c' : CircularBuffer w)
    (h : Step b op c) (h' : Step b op c') : c = c' := by
  cases h <;> cases h' <;> rfl

/- The results that do not tell the two buffers apart. Where an append writes is asked
after its own call of GetFreeSpaceSize. -/
structure SameResults (b b' : CircularBuffer w) : Prop where
  freeSpaceSize : b'.getFreeSpaceSize.1 = b.getFreeSpaceSize.1
  storedSize : b'.getStoredSize = b.getStoredSize
  contiguiousBytes : b'.getContiguiousBytes = b.getContiguiousBytes
  bufferStart : b'.getBufferStart = b.getBufferStart
  writePosition : b'.getFreeSpaceSize.2.getBuffer = b.getFreeSpaceSize.2.getBuffer
  content : b'.content = b.content

theorem Asked.sameResults (asked : Asked b b') : SameResults b b' := by
  have free := asked.freeSpace
  obtain ⟨v, rfl | rfl⟩ := asked
  · exact ⟨rfl, rfl, rfl, rfl, rfl, rfl⟩
  · have position := congrArg (fun r => r.2.getBuffer) free
    refine ⟨congrArg Prod.fst free, ?_, ?_, ?_, position, v.getFreeSpaceSizeContent⟩ <;>
      rcases v.getFreeSpaceSizeCases with ⟨same, _⟩ | ⟨none, more, allocated⟩
    · rw [same]
    · rw [allocated]
      rfl
    · rw [same]
    · rw [allocated]
      rfl
    · rw [same]
    · have some : 0 < b.mARegionSize := (allocateBValid v (by omega) none).aNonempty rfl
      rw [allocated]
      simp [getBufferStart, allocateB, some]

theorem freeSpaceNeutral (memory : Nat → UInt8) (buffer : Nat) (capacity : BitVec w)
    (moves : List (Runs.Move (CircularBuffer w) (Op w))) (b : CircularBuffer w)
    (run : Run Step (create memory buffer capacity) moves b)
    (ops : List (Op w)) (padded : Padded Extra (actions moves) ops) :
    (∃ moves' b', Run Step (create memory buffer capacity) moves' b' ∧ actions moves' = ops) ∧
    ∀ moves' b', Run Step (create memory buffer capacity) moves' b' → actions moves' = ops →
      SameResults b b' := by
  have start : Asked (create memory buffer capacity) (create memory buffer capacity) :=
    ⟨createValid memory buffer capacity, .inl rfl⟩
  obtain ⟨moves₀, b₀, run₀, same₀, asked⟩ := run.padded Asked.matched Asked.stays padded start
  refine ⟨⟨moves₀, b₀, run₀, same₀⟩, fun moves' b' run' same' => ?_⟩
  obtain rfl := run'.sameEnd stepFunctional run₀ (same'.trans same₀.symm)
  exact asked.sameResults

theorem freeSpaceNeutralRemoving : ∃ moves moves' : List (Runs.Move (CircularBuffer 64) (Op 64)),
    ∃ b b', Run Step (create (fun _ => 0) 4096 8#64) moves b ∧
      Run Step (create (fun _ => 0) 4096 8#64) moves' b' ∧
      moves.length = 3 ∧ moves'.length = 4 ∧ SameResults b b' := by
  have run : ∃ moves b, Run Step (create (fun _ => 0) 4096 8#64) moves b ∧ moves.length = 3 ∧
      actions moves = [.append [1, 2, 3, 4, 5, 6], .remove 4#64, .remove 1#64] :=
    ⟨_, _, .more (.append _ [1, 2, 3, 4, 5, 6] (by decide)) (.more (.remove _ 4#64)
      (.more (.remove _ 1#64) (.done _))), rfl, rfl⟩
  obtain ⟨moves, b, run, length, same⟩ := run
  have padded : Padded Extra (actions moves)
      [.append [1, 2, 3, 4, 5, 6], .remove 4#64, .query .freeSpaceSize, .remove 1#64] := by
    rw [same]
    exact .both _ (.both _ (.added rfl (.both _ .done)))
  obtain ⟨⟨moves', b', run', same'⟩, results⟩ := freeSpaceNeutral _ _ _ moves b run _ padded
  have length' := congrArg List.length same'
  rw [actions, List.length_map] at length'
  exact ⟨moves, moves', b, b', run, run', length, length', results moves' b' run' same'⟩

theorem Valid.freeSpace (v : b.Valid) :
    (∃ p, b.mBRegionPointer = some p ∧
      b.getFreeSpaceSize.1 + b.mBRegionSize = b.mARegionPointer - b.mBuffer) ∨
    (b.mBRegionPointer = none ∧ b.mBRegionSize = 0 ∧ b.getFreeSpaceSize.1 =
      max (b.mARegionPointer - b.mBuffer) (b.mBufferEnd - (b.mARegionPointer + b.mARegionSize))) := by
  cases h : b.mBRegionPointer with
  | some p =>
    obtain ⟨start, before⟩ := v.bInside p h
    refine .inl ⟨p, rfl, ?_⟩
    rcases v.getFreeSpaceSizeCases with ⟨same, _⟩ | ⟨free, _⟩
    · simp only [same, writeSpace, h]
      omega
    · rw [h] at free
      contradiction
  | none =>
    refine .inr ⟨rfl, v.bNull h, ?_⟩
    rcases v.getFreeSpaceSizeCases with ⟨same, less⟩ | ⟨free, more, allocated⟩
    · have tail := less h
      simp only [same, writeSpace, h] at tail ⊢
      omega
    · rw [allocated, allocateBWriteSpace v free]
      simp only [writeSpace, h] at more
      omega

/- What GetFreeSpaceSize compared when it allocated B. No field keeps it: the tail does
not change while B is in use, and the front only grows. -/
def TailShorter (b : CircularBuffer w) : Prop := ∀ p, b.mBRegionPointer = some p →
  b.mBufferEnd - (b.mARegionPointer + b.mARegionSize) < b.mARegionPointer - b.mBuffer

structure Roomy (b : CircularBuffer w) (capacity : Nat) : Prop where
  valid : b.Valid
  capacity : b.mCapacity = capacity
  tail : b.TailShorter

theorem createRoomy (memory : Nat → UInt8) (buffer : Nat) (capacity : BitVec w) :
    (create memory buffer capacity).Roomy capacity.toNat :=
  ⟨createValid memory buffer capacity, rfl, fun _ h => by cases h⟩

theorem Roomy.query {capacity : Nat} (roomy : b.Roomy capacity) :
    b.getFreeSpaceSize.2.Roomy capacity := by
  obtain ⟨v, size, tail⟩ := roomy
  have valid := v.getFreeSpaceSizeValid
  obtain ⟨start, stop⟩ := v.getFreeSpaceSizeBlock
  refine ⟨valid, (v.sameCapacity valid start stop).trans size, ?_⟩
  rcases v.getFreeSpaceSizeCases with ⟨same, _⟩ | ⟨free, more, allocated⟩
  · rw [same]
    exact tail
  · rw [allocated]
    simp only [writeSpace, free] at more
    exact fun _ _ => more

theorem Roomy.append {capacity : Nat} (roomy : b.Roomy capacity) {data : List UInt8}
    (room : data.length ≤ b.getFreeSpaceSize.1) : (b.append data).Roomy capacity := by
  have queried := roomy.query
  have space := roomy.valid.appendRoom room
  have valid := writeValid queried.valid b.getFreeSpaceSize.2.getBuffer data
  refine ⟨roomy.valid.appendValid room, ?_, ?_⟩ <;> unfold CircularBuffer.append <;>
    cases h : (b.getFreeSpaceSize.2.write b.getFreeSpaceSize.2.getBuffer data).mBRegionPointer with
    | some p =>
      dsimp only
      rw [valid.commitB h space]
      first | exact queried.capacity | exact queried.tail
    | none =>
      dsimp only
      rw [valid.commitA h space]
      first | exact queried.capacity | exact fun p some => absurd (h.symm.trans some) (by simp)

theorem Roomy.remove {capacity : Nat} (roomy : b.Roomy capacity) {len : Nat} (fitsLen : len < 2 ^ w) :
    (b.remove len).Roomy capacity := by
  obtain ⟨v, size, tail⟩ := roomy
  have valid := v.removeValid fitsLen
  obtain ⟨start, stop⟩ := v.removeBlock fitsLen
  refine ⟨valid, (v.sameCapacity valid start stop).trans size, ?_⟩
  rcases v.removeCases fitsLen with ⟨inA, same⟩ | ⟨_, _, same⟩ | ⟨_, same⟩ <;> rw [same]
  · intro p allocated
    have before := tail p allocated
    simp only
    omega
  · exact fun _ h => by cases h
  · exact fun _ h => by cases h

theorem stepRoomy (capacity : Nat) (b : CircularBuffer w) (op : Op w) (b' : CircularBuffer w)
    (roomy : b.Roomy capacity) (h : Step b op b') : b'.Roomy capacity := by
  cases h with
  | append data room => exact roomy.append room
  | remove len => exact roomy.remove len.isLt
  | query q => cases q <;> first | exact roomy.query | exact roomy

theorem Roomy.bounds {capacity : Nat} (roomy : b.Roomy capacity) (positive : 0 < capacity) :
    capacity < 2 * (b.getStoredSize + b.getFreeSpaceSize.1) ∧
    b.getStoredSize + b.getFreeSpaceSize.1 ≤ capacity ∧
    (b.getStoredSize = 0 → b.getFreeSpaceSize.1 = capacity) := by
  obtain ⟨v, size, tail⟩ := roomy
  have stored : b.getStoredSize = b.mARegionSize + b.mBRegionSize := by
    rw [v.getStoredSize, v.contentLength]
  have start := v.aStart
  have inside := v.aInside
  have stop := v.bufferEnd
  have empty := v.aEmpty
  rw [stored]
  rcases v.freeSpace with ⟨p, allocated, space⟩ | ⟨free, none, space⟩
  · have shorter := tail p allocated
    have some := v.aNonempty allocated
    have before := (v.bInside p allocated).2
    refine ⟨?_, ?_, ?_⟩ <;> omega
  · refine ⟨?_, ?_, ?_⟩ <;> omega

theorem Valid.freeSpaceRestart (v : b.Valid) {b' : CircularBuffer w} (v' : b'.Valid)
    (sameStart : b'.mBuffer = b.mBuffer) (sameEnd : b'.mBufferEnd = b.mBufferEnd)
    (atStart : b'.mARegionPointer = b.mBuffer) (noB : b'.mBRegionPointer = none)
    (shorter : b'.mARegionSize ≤ b.mBRegionSize) :
    b.getFreeSpaceSize.1 ≤ b'.getFreeSpaceSize.1 := by
  have start := v.aStart
  have inside := v.aInside
  rcases v'.freeSpace with ⟨p, allocated, _⟩ | ⟨_, _, space'⟩
  · cases noB.symm.trans allocated
  · rw [sameStart, sameEnd, atStart] at space'
    rcases v.freeSpace with ⟨p, allocated, space⟩ | ⟨free, none, space⟩
    · omega
    · omega

theorem Valid.freeSpaceRemove (v : b.Valid) {len : Nat} (fitsLen : len < 2 ^ w) :
    b.getFreeSpaceSize.1 ≤ (b.remove len).getFreeSpaceSize.1 := by
  have after := (v.removeValid fitsLen).freeSpace
  have start := v.aStart
  have inside := v.aInside
  have stop := v.bufferEnd
  rcases v.removeCases fitsLen with ⟨inA, same⟩ | ⟨_, _, same⟩ | ⟨_, same⟩
  · rw [same] at after ⊢
    rcases v.freeSpace with ⟨p, allocated, space⟩ | ⟨free, _, space⟩
    · rcases after with ⟨q, _, space'⟩ | ⟨free', _⟩
      · simp only at space'
        omega
      · exact absurd (allocated.symm.trans free') (by simp)
    · rcases after with ⟨q, allocated', _⟩ | ⟨_, _, space'⟩
      · exact absurd (free.symm.trans allocated') (by simp)
      · simp only at space'
        omega
  · exact v.freeSpaceRestart (v.removeValid fitsLen) (by rw [same]) (by rw [same]) (by rw [same])
      (by rw [same]) (by rw [same]; exact Nat.sub_le _ _)
  · exact v.freeSpaceRestart (v.removeValid fitsLen) (by rw [same]) (by rw [same]) (by rw [same])
      (by rw [same]) (by rw [same]; exact Nat.zero_le _)

theorem Valid.freeSpaceAppend (v : b.Valid) {data : List UInt8}
    (room : data.length ≤ b.getFreeSpaceSize.1) :
    (b.append data).getFreeSpaceSize.1 ≤ b.getFreeSpaceSize.1 := by
  have after := (v.appendValid room).freeSpace
  have before := v.getFreeSpaceSizeValid.freeSpace
  have space := v.appendRoom room
  have valid := writeValid v.getFreeSpaceSizeValid b.getFreeSpaceSize.2.getBuffer data
  rw [v.getFreeSpaceSizeTwice] at before
  unfold append at after ⊢
  cases h : b.getFreeSpaceSize.2.mBRegionPointer with
  | some p =>
    dsimp only at after ⊢
    rw [valid.commitB h space] at after ⊢
    rcases after with ⟨q, _, after⟩ | ⟨free, _⟩
    · rcases before with ⟨_, _, before⟩ | ⟨free, _⟩
      · simp only [write] at after ⊢
        omega
      · exact absurd (h.symm.trans free) (by simp)
    · exact absurd (h.symm.trans free) (by simp)
  | none =>
    dsimp only at after ⊢
    rw [valid.commitA h space] at after ⊢
    rcases after with ⟨q, allocated, _⟩ | ⟨_, _, after⟩
    · exact absurd (h.symm.trans allocated) (by simp)
    · rcases before with ⟨q, allocated, _⟩ | ⟨_, _, before⟩
      · exact absurd (h.symm.trans allocated) (by simp)
      · simp only [write] at after ⊢
        omega

theorem stepFreeSpace (v : b.Valid) {op : Op w} (h : Step b op b') (keeps : ∀ len, op ≠ .remove len) :
    b'.getFreeSpaceSize.1 ≤ b.getFreeSpaceSize.1 := by
  cases h with
  | append data room => exact v.freeSpaceAppend room
  | remove len => exact absurd rfl (keeps len)
  | query q =>
    cases q with
    | freeSpaceSize => exact Nat.le_of_eq (congrArg Prod.fst v.getFreeSpaceSizeTwice)
    | storedSize | contiguiousBytes | buffer | bufferStart => exact Nat.le_refl _

theorem capacityGuarantee (memory : Nat → UInt8) (buffer : Nat) (capacity : BitVec w)
    (positive : 0 < capacity.toNat) (b : CircularBuffer w)
    (reach : Reachable Step (create memory buffer capacity) b) :
    (capacity.toNat < 2 * (b.getStoredSize + b.getFreeSpaceSize.1) ∧
      b.getStoredSize + b.getFreeSpaceSize.1 ≤ capacity.toNat ∧
      (b.getStoredSize = 0 → b.getFreeSpaceSize.1 = capacity.toNat)) ∧
    (∀ len : BitVec w, b.getFreeSpaceSize.1 ≤ (b.remove len.toNat).getFreeSpaceSize.1) ∧
    (∀ n, 2 * (b.getStoredSize + n) ≤ capacity.toNat → n ≤ b.getFreeSpaceSize.1) ∧
    ∀ op b', Step b op b' → (∀ len, op ≠ .remove len) →
      b'.getFreeSpaceSize.1 ≤ b.getFreeSpaceSize.1 := by
  have roomy := reach.invariant (stepRoomy capacity.toNat) (createRoomy memory buffer capacity)
  have bounds := roomy.bounds positive
  refine ⟨bounds, fun len => roomy.valid.freeSpaceRemove len.isLt, fun n half => ?_,
    fun op b' step keeps => stepFreeSpace roomy.valid step keeps⟩
  omega

theorem capacityGuaranteeTail : ∃ b : CircularBuffer 64,
    Reachable Step (create (fun _ => 0) 4096 10#64) b ∧ b.getStoredSize = 2 ∧
    b.getFreeSpaceSize.1 = 4 ∧ 10 < 2 * (b.getStoredSize + b.getFreeSpaceSize.1) := by
  have reach : ∃ b : CircularBuffer 64, Reachable Step (create (fun _ => 0) 4096 10#64) b ∧
      b.getStoredSize = 2 ∧ b.getFreeSpaceSize.1 = 4 :=
    ⟨_, ⟨_, .more (.append _ [1, 2, 3, 4, 5, 6] (by decide)) (.more (.remove _ 5#64)
      (.more (.append _ [7] (by decide)) (.done _)))⟩, by decide, by decide⟩
  obtain ⟨b, reach, stored, free⟩ := reach
  exact ⟨b, reach, stored, free, (capacityGuarantee _ _ 10#64 (by decide) b reach).1.1⟩

end IocpNetwork.CircularBuffer
