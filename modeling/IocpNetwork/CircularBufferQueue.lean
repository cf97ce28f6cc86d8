import IocpNetwork.CircularBufferRegions
import IocpNetwork.Lib.Runs
import IocpNetwork.Lib.Fifo

/-! A CircularBuffer is a FIFO queue of bytes. An append is the sequence that every
caller writes: ask for the free space, write at the buffer position, commit. -/
namespace IocpNetwork.CircularBuffer
open ByteMemory
open Runs (Run)

variable {w : Nat}

def append (b : CircularBuffer w) (data : List UInt8) : CircularBuffer w :=
  let b := b.getFreeSpaceSize.2
  (b.write b.getBuffer data).commit data.length

inductive Query where
  | freeSpaceSize
  | storedSize
  | contiguiousBytes
  | buffer
  | bufferStart
  deriving DecidableEq, Repr

def Query.ask (q : Query) (b : CircularBuffer w) : CircularBuffer w :=
  match q with
  | .freeSpaceSize => b.getFreeSpaceSize.2
  | .storedSize | .contiguiousBytes | .buffer | .bufferStart => b

inductive Op (w : Nat) where
  | append (data : List UInt8)
  | remove (len : BitVec w)
  | query (q : Query)

inductive Step : CircularBuffer w → Op w → CircularBuffer w → Prop where
  | append (b : CircularBuffer w) (data : List UInt8) (room : data.length ≤ b.getFreeSpaceSize.1) :
      Step b (.append data) (b.append data)
  | remove (b : CircularBuffer w) (len : BitVec w) : Step b (.remove len) (b.remove len.toNat)
  | query (b : CircularBuffer w) (q : Query) : Step b (.query q) (q.ask b)

def Op.fifo : Op w → Fifo.Op UInt8
  | .append data => .enqueue data
  | .remove len => .dequeue len.toNat
  | .query _ => .observe

theorem Valid.appendRoom {b : CircularBuffer w} (v : b.Valid) {data : List UInt8}
    (room : data.length ≤ b.getFreeSpaceSize.1) :
    data.length ≤ b.getFreeSpaceSize.2.writeSpace := by
  rwa [← v.getFreeSpaceSizeResult]

theorem Valid.appendValid {b : CircularBuffer w} (v : b.Valid) {data : List UInt8}
    (room : data.length ≤ b.getFreeSpaceSize.1) : (b.append data).Valid :=
  (writeValid v.getFreeSpaceSizeValid _ data).commitValid (v.appendRoom room)

theorem Valid.appendContent {b : CircularBuffer w} (v : b.Valid) {data : List UInt8}
    (room : data.length ≤ b.getFreeSpaceSize.1) : (b.append data).content = b.content ++ data := by
  rw [append, v.getFreeSpaceSizeValid.writeCommitContent (v.appendRoom room),
    v.getFreeSpaceSizeContent]

structure KeepsA (b b' : CircularBuffer w) : Prop where
  pointer : b'.mARegionPointer = b.mARegionPointer
  size : b.mARegionSize ≤ b'.mARegionSize
  bytes : bytesAt b'.memory b.mARegionPointer b.mARegionSize =
    bytesAt b.memory b.mARegionPointer b.mARegionSize

theorem getFreeSpaceSizeKeepsA (b : CircularBuffer w) : b.KeepsA b.getFreeSpaceSize.2 := by
  unfold getFreeSpaceSize
  split
  · exact ⟨rfl, Nat.le_refl _, rfl⟩
  · split <;> exact ⟨rfl, Nat.le_refl _, rfl⟩

theorem Valid.appendKeepsA {b : CircularBuffer w} (v : b.Valid) {data : List UInt8}
    (room : data.length ≤ b.getFreeSpaceSize.1) : b.KeepsA (b.append data) := by
  have queried := b.getFreeSpaceSizeKeepsA
  have free := v.getFreeSpaceSizeValid
  have space := v.appendRoom room
  have valid := writeValid free b.getFreeSpaceSize.2.getBuffer data
  have apart : ∀ a, b.mARegionPointer ≤ a → a < b.mARegionPointer + b.mARegionSize →
      store b.getFreeSpaceSize.2.memory b.getFreeSpaceSize.2.getBuffer data a =
        b.getFreeSpaceSize.2.memory a := by
    intro a low high
    apply storeOutside
    by_contra inside
    have stored := free.writeRangeFree (a := a) (by omega) (by omega)
    have pointer := queried.pointer
    have size := queried.size
    exact stored (.inl ⟨by omega, by omega⟩)
  have bytes := (bytesAtCongr apart).trans queried.bytes
  unfold append
  cases h : (b.getFreeSpaceSize.2.write b.getFreeSpaceSize.2.getBuffer data).mBRegionPointer with
  | some p =>
    dsimp only
    rw [valid.commitB h space]
    exact ⟨queried.pointer, queried.size, bytes⟩
  | none =>
    dsimp only
    rw [valid.commitA h space]
    exact ⟨queried.pointer, Nat.le_add_right_of_le queried.size, bytes⟩

theorem Valid.queryValid {b : CircularBuffer w} (v : b.Valid) (q : Query) : (q.ask b).Valid := by
  cases q <;> first | exact v.getFreeSpaceSizeValid | exact v

theorem Valid.queryContent {b : CircularBuffer w} (v : b.Valid) (q : Query) :
    (q.ask b).content = b.content := by
  cases q <;> first | exact v.getFreeSpaceSizeContent | rfl

theorem stepValid (b : CircularBuffer w) (op : Op w) (b' : CircularBuffer w) (v : b.Valid)
    (h : Step b op b') : b'.Valid := by
  cases h with
  | append data room => exact v.appendValid room
  | remove len => exact v.removeValid len.isLt
  | query q => exact v.queryValid q

theorem stepContent (b : CircularBuffer w) (op : Op w) (b' : CircularBuffer w) (v : b.Valid)
    (h : Step b op b') : b'.content = Fifo.apply b.content op.fifo := by
  cases h with
  | append data room => exact v.appendContent room
  | remove len => rw [v.removeContent len.isLt]; exact (Fifo.dropMin _ _).symm
  | query q => exact v.queryContent q

theorem Valid.contiguousPrefix {b : CircularBuffer w} (v : b.Valid) :
    (b.content = [] → b.getContiguiousBytes = 0) ∧
    (b.content ≠ [] → ∃ p, b.getBufferStart = some p ∧ 0 < b.getContiguiousBytes ∧
      bytesAt b.memory p b.getContiguiousBytes <+: b.content) := by
  have length := v.contentLength
  rw [v.contiguousA]
  rcases Nat.eq_zero_or_pos b.mARegionSize with zero | pos
  · have size := v.bNull (v.aEmpty zero).2
    have nothing : b.content = [] := List.eq_nil_of_length_eq_zero (by omega)
    exact ⟨fun _ => zero, fun some => absurd nothing some⟩
  · refine ⟨fun nothing => ?_, fun _ => ⟨b.mARegionPointer, if_pos pos, pos, List.prefix_append _ _⟩⟩
    rw [nothing, List.length_nil] at length
    omega

theorem refinesFifo (memory : Nat → UInt8) (buffer : Nat) (capacity : BitVec w)
    (moves : List (Runs.Move (CircularBuffer w) (Op w))) (b : CircularBuffer w)
    (run : Run Step (create memory buffer capacity) moves b) :
    let queue := Fifo.run [] ((Runs.actions moves).map Op.fifo)
    b.content = queue ∧ b.getStoredSize = queue.length ∧
    (queue = [] → b.getContiguiousBytes = 0) ∧
    (queue ≠ [] → ∃ p, b.getBufferStart = some p ∧ 0 < b.getContiguiousBytes ∧
      bytesAt b.memory p b.getContiguiousBytes <+: queue) := by
  have fresh := createValid memory buffer capacity
  have v : b.Valid := run.invariant stepValid fresh
  have folded := run.fold content (fun q m => Fifo.apply q m.action.fifo) stepValid stepContent fresh
  have same : b.content = Fifo.run [] ((Runs.actions moves).map Op.fifo) := by
    rw [folded, Fifo.run, Runs.actions, List.map_map, List.foldl_map]
    simp [content, create]
  rw [← same]
  exact ⟨rfl, v.getStoredSize, v.contiguousPrefix⟩

theorem refinesFifoWrapping : ∃ moves b,
    Run Step (create (fun _ => 0) 4096 4#64) moves b ∧ b.content = [5] ∧ b.getStoredSize = 1 := by
  have run : ∃ moves b, Run Step (create (fun _ => 0) 4096 4#64) moves b ∧
      Runs.actions moves = [.append [1, 2, 3], .remove 2#64, .append [4, 5], .remove 2#64] :=
    ⟨_, _, .more (.append _ [1, 2, 3] (by decide)) (.more (.remove _ 2#64)
      (.more (.append _ [4, 5] (by decide)) (.more (.remove _ 2#64) (.done _)))), rfl⟩
  obtain ⟨moves, b, run, same⟩ := run
  have facts := refinesFifo _ _ _ _ _ run
  rw [same] at facts
  exact ⟨moves, b, run, facts.1, facts.2.1⟩

end IocpNetwork.CircularBuffer
