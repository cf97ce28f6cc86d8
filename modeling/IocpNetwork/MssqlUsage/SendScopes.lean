import IocpNetwork.Lib.Sections
import IocpNetwork.MssqlUsage.SendPipeline

/-! The scopes of Session.hpp that mSendBufferLock guards, in PostSend, FlushSend and
SendCompletion. An operation of mSendBuffer, a byte that memcpy copies and an access to
mSendPendingCount are steps of their own. -/
namespace IocpNetwork.MssqlUsage
open ByteMemory (bytesAt storeAppend storeNil)
open Sections (Program)

/- What mSendBufferLock guards. -/
structure SendSide (w : Nat) where
  mSendBuffer : CircularBuffer w
  mSendPendingCount : Int

abbrev Sent := WsaBuf × List UInt8

inductive SendCall where
  | postSend (data : List UInt8)
  | flushSend (r : WsaResult)
  | sendCompletion (transferred : Nat)
  deriving DecidableEq, Repr

inductive SendResult where
  | posted (result : Bool)
  | flushed (sent : Option Sent) (result : Bool)
  | completed
  deriving DecidableEq, Repr

inductive SendPoint where
  | freeSpace (data : List UInt8)
  | destData (data : List UInt8)
  | copy (dest : Nat) (rest : List UInt8) (len : Nat)
  | contiguious (r : WsaResult)
  | nothingPending
  | pending (r : WsaResult)
  | length (r : WsaResult)
  | wsaSend (r : WsaResult) (len : Nat)
  | readPending (sent : Sent)
  | writePending (sent : Sent) (count : Int)
  | result (sent : Sent)
  | remove (transferred : Nat)
  | readCompleted
  | writeCompleted (count : Int)
  deriving DecidableEq, Repr

namespace SendSide
variable {w : Nat}

def setBuffer (s : SendSide w) (b : CircularBuffer w) : SendSide w := {s with mSendBuffer := b}
def setPending (s : SendSide w) (n : Int) : SendSide w := {s with mSendPendingCount := n}

def range (b : CircularBuffer w) (buf : WsaBuf) : List UInt8 :=
  match buf.buf with
  | none => []
  | some p => bytesAt b.memory p buf.len

/- At `copy` the loop of memcpy, and Commit once nothing is left to copy. At `wsaSend` the
rest of the failure path touches nothing that the lock guards. -/
def program : Program SendCall SendResult SendPoint (SendSide w) where
  enter
    | .postSend data => .freeSpace data
    | .flushSend r => .contiguious r
    | .sendCompletion transferred => .remove transferred
  access
    | .freeSpace data, s =>
        let (space, buffer) := s.mSendBuffer.getFreeSpaceSize
        (if space < data.length then .inr (.posted false) else .inl (.destData data), s.setBuffer buffer)
    | .destData data, s => (.inl (.copy s.mSendBuffer.getBuffer data data.length), s)
    | .copy dest (byte :: rest) len, s =>
        (.inl (.copy (dest + 1) rest len), s.setBuffer (s.mSendBuffer.write dest [byte]))
    | .copy _ [] len, s => (.inr (.posted true), s.setBuffer (s.mSendBuffer.commit len))
    | .contiguious r, s =>
        (.inl (if 0 = s.mSendBuffer.getContiguiousBytes then .nothingPending else .pending r), s)
    | .nothingPending, s => (.inr (.flushed none (decide (0 = s.mSendPendingCount))), s)
    | .pending r, s =>
        (if s.mSendPendingCount > 0 then .inr (.flushed none false) else .inl (.length r), s)
    | .length r, s => (.inl (.wsaSend r (s.mSendBuffer.getContiguiousBytes % 2 ^ 32)), s)
    | .wsaSend r len, s =>
        let buf : WsaBuf := ⟨len, s.mSendBuffer.getBufferStart⟩
        (if r.Started then .inl (.readPending (buf, range s.mSendBuffer buf))
          else .inr (.flushed none true), s)
    | .readPending sent, s => (.inl (.writePending sent (s.mSendPendingCount + 1)), s)
    | .writePending sent count, s => (.inl (.result sent), s.setPending count)
    | .result sent, s => (.inr (.flushed (some sent) (decide (s.mSendPendingCount = 1))), s)
    | .remove transferred, s => (.inl .readCompleted, s.setBuffer (s.mSendBuffer.remove transferred))
    | .readCompleted, s => (.inl (.writeCompleted (s.mSendPendingCount - 1)), s)
    | .writeCompleted count, s => (.inr .completed, s.setPending count)

def postSend (s : SendSide w) (data : List UInt8) : Bool × SendSide w :=
  let (space, buffer) := s.mSendBuffer.getFreeSpaceSize
  if space < data.length then (false, s.setBuffer buffer)
  else (true, s.setBuffer ((buffer.write buffer.getBuffer data).commit data.length))

def sendBuf (s : SendSide w) : WsaBuf :=
  ⟨s.mSendBuffer.getContiguiousBytes % 2 ^ 32, s.mSendBuffer.getBufferStart⟩

def sending (s : SendSide w) : Sent := (s.sendBuf, range s.mSendBuffer s.sendBuf)

def flushSend (s : SendSide w) (r : WsaResult) : Option Sent × Bool × SendSide w :=
  if 0 = s.mSendBuffer.getContiguiousBytes then (none, decide (0 = s.mSendPendingCount), s)
  else if s.mSendPendingCount > 0 then (none, false, s)
  else if r.Started then
    (some s.sending, decide (s.mSendPendingCount + 1 = 1), s.setPending (s.mSendPendingCount + 1))
  else (none, true, s)

def sendCompletion (s : SendSide w) (transferred : Nat) : SendSide w :=
  (s.setBuffer (s.mSendBuffer.remove transferred)).setPending (s.mSendPendingCount - 1)

def perform (s : SendSide w) : SendCall → SendResult × SendSide w
  | .postSend data => let (result, s) := s.postSend data; (.posted result, s)
  | .flushSend r => let (sent, result, s) := s.flushSend r; (.flushed sent result, s)
  | .sendCompletion transferred => (.completed, s.sendCompletion transferred)

def Room (s : SendSide w) (data : List UInt8) : Prop := data.length ≤ s.mSendBuffer.getFreeSpaceSize.1
def Sends (s : SendSide w) : Prop := 0 ≠ s.mSendBuffer.getContiguiousBytes ∧ ¬ s.mSendPendingCount > 0

def dest (s : SendSide w) : Nat := s.mSendBuffer.getFreeSpaceSize.2.getBuffer

def copied (s : SendSide w) (done : List UInt8) : SendSide w :=
  s.setBuffer (s.mSendBuffer.getFreeSpaceSize.2.write s.dest done)

def Mid (m : SendSide w) : SendCall → SendPoint × SendSide w → Prop
  | .postSend data, (.freeSpace d, s) => d = data ∧ s = m
  | .postSend data, (.destData d, s) => d = data ∧ m.Room data ∧ s = m.setBuffer m.mSendBuffer.getFreeSpaceSize.2
  | .postSend data, (.copy dest rest len, s) => len = data.length ∧ m.Room data ∧
      ∃ done, done ++ rest = data ∧ dest = m.dest + done.length ∧ s = m.copied done
  | .flushSend r, (.contiguious r', s) => r' = r ∧ s = m
  | .flushSend _, (.nothingPending, s) => s = m ∧ 0 = m.mSendBuffer.getContiguiousBytes
  | .flushSend r, (.pending r', s) => r' = r ∧ s = m ∧ 0 ≠ m.mSendBuffer.getContiguiousBytes
  | .flushSend r, (.length r', s) => r' = r ∧ s = m ∧ m.Sends
  | .flushSend r, (.wsaSend r' len, s) => r' = r ∧ s = m ∧ m.Sends ∧ len = m.sendBuf.len
  | .flushSend r, (.readPending sent, s) => s = m ∧ m.Sends ∧ r.Started ∧ sent = m.sending
  | .flushSend r, (.writePending sent count, s) => s = m ∧ m.Sends ∧ r.Started ∧ sent = m.sending ∧
      count = m.mSendPendingCount + 1
  | .flushSend r, (.result sent, s) => s = m.setPending (m.mSendPendingCount + 1) ∧ m.Sends ∧
      r.Started ∧ sent = m.sending
  | .sendCompletion n, (.remove n', s) => n' = n ∧ s = m
  | .sendCompletion n, (.readCompleted, s) => s = m.setBuffer (m.mSendBuffer.remove n)
  | .sendCompletion n, (.writeCompleted count, s) => s = m.setBuffer (m.mSendBuffer.remove n) ∧
      count = m.mSendPendingCount - 1
  | _, _ => False

theorem midEnter (m : SendSide w) (call : SendCall) : m.Mid call ((program (w := w)).enter call, m) := by
  cases call <;> exact ⟨rfl, rfl⟩

theorem copiedNothing (m : SendSide w) : m.copied [] = m.setBuffer m.mSendBuffer.getFreeSpaceSize.2 := by
  simp only [copied, CircularBuffer.write, storeNil]

theorem copiedMore (m : SendSide w) (done : List UInt8) (byte : UInt8) :
    (m.copied done).setBuffer ((m.copied done).mSendBuffer.write (m.dest + done.length) [byte]) =
      m.copied (done ++ [byte]) := by
  simp only [copied, setBuffer, CircularBuffer.write, storeAppend]

theorem midNext {m : SendSide w} {call : SendCall} {a b : SendPoint × SendSide w}
    (mid : m.Mid call a) (next : program.Next a b) : m.Mid call b := by
  obtain ⟨point, s⟩ := a
  obtain ⟨point', s'⟩ := b
  unfold Program.Next at next
  cases call <;> cases point <;> try exact absurd mid id
  case postSend.freeSpace data d =>
    obtain ⟨rfl, rfl⟩ := mid
    simp only [program, Prod.mk.injEq] at next
    obtain ⟨goes, rfl⟩ := next
    split at goes
    · cases goes
    · rename_i room
      cases goes
      exact ⟨rfl, Nat.le_of_not_lt room, rfl⟩
  case postSend.destData data d =>
    obtain ⟨rfl, room, rfl⟩ := mid
    cases next
    exact ⟨rfl, room, [], rfl, rfl, m.copiedNothing.symm⟩
  case postSend.copy data dest rest len =>
    obtain ⟨rfl, room, done, split, rfl, rfl⟩ := mid
    cases rest with
    | nil => cases next
    | cons byte rest =>
      cases next
      refine ⟨rfl, room, done ++ [byte], ?_, ?_, (m.copiedMore done byte)⟩
      · rw [List.append_assoc]
        exact split
      · rw [List.length_append, List.length_singleton, Nat.add_assoc]
  case flushSend.contiguious r r' =>
    obtain ⟨rfl, rfl⟩ := mid
    simp only [program, Prod.mk.injEq, Sum.inl.injEq] at next
    obtain ⟨rfl, rfl⟩ := next
    split
    · exact ⟨rfl, by assumption⟩
    · exact ⟨rfl, rfl, by assumption⟩
  case flushSend.nothingPending r => cases next
  case flushSend.pending r r' =>
    obtain ⟨rfl, rfl, stored⟩ := mid
    simp only [program, Prod.mk.injEq] at next
    obtain ⟨goes, rfl⟩ := next
    split at goes
    · cases goes
    · cases goes
      exact ⟨rfl, rfl, stored, by assumption⟩
  case flushSend.length r r' =>
    obtain ⟨rfl, rfl, sends⟩ := mid
    cases next
    exact ⟨rfl, rfl, sends, rfl⟩
  case flushSend.wsaSend r r' len =>
    obtain ⟨rfl, rfl, sends, rfl⟩ := mid
    simp only [program, Prod.mk.injEq] at next
    obtain ⟨goes, rfl⟩ := next
    split at goes
    · cases goes
      exact ⟨rfl, sends, by assumption, rfl⟩
    · cases goes
  case flushSend.readPending r sent =>
    obtain ⟨rfl, sends, started, rfl⟩ := mid
    cases next
    exact ⟨rfl, sends, started, rfl, rfl⟩
  case flushSend.writePending r sent count =>
    obtain ⟨rfl, sends, started, rfl, rfl⟩ := mid
    cases next
    exact ⟨rfl, sends, started, rfl⟩
  case flushSend.result r sent => cases next
  case sendCompletion.remove n n' =>
    obtain ⟨rfl, rfl⟩ := mid
    cases next
    rfl
  case sendCompletion.readCompleted n =>
    obtain rfl := mid
    cases next
    exact ⟨rfl, rfl⟩
  case sendCompletion.writeCompleted n count => cases next

theorem midReturns {m : SendSide w} {call : SendCall} {a : SendPoint × SendSide w}
    (mid : m.Mid call a) {r : SendResult} {s' : SendSide w}
    (last : program.access a.1 a.2 = (.inr r, s')) : (r, s') = m.perform call := by
  obtain ⟨point, s⟩ := a
  cases call <;> cases point <;> try exact absurd mid id
  case postSend.freeSpace data d =>
    obtain ⟨rfl, rfl⟩ := mid
    simp only [program, Prod.mk.injEq] at last
    obtain ⟨goes, rfl⟩ := last
    split at goes
    · rename_i short
      cases goes
      have whole : s.postSend d = (false, s.setBuffer s.mSendBuffer.getFreeSpaceSize.2) := if_pos short
      rw [perform, whole]
    · cases goes
  case postSend.destData data d => cases last
  case postSend.copy data dest rest len =>
    obtain ⟨rfl, room, done, split, rfl, rfl⟩ := mid
    cases rest with
    | cons byte rest => cases last
    | nil =>
      cases last
      rw [List.append_nil] at split
      subst split
      have whole : m.postSend done = (true, _) := if_neg (Nat.not_lt.mpr room)
      rw [perform, whole]
      rfl
  case flushSend.contiguious r r' => cases last
  case flushSend.nothingPending r =>
    obtain ⟨rfl, empty⟩ := mid
    cases last
    have whole : s.flushSend r = (none, _, s) := if_pos empty
    rw [perform, whole]
  case flushSend.pending r r' =>
    obtain ⟨rfl, rfl, stored⟩ := mid
    simp only [program, Prod.mk.injEq] at last
    obtain ⟨goes, rfl⟩ := last
    split at goes
    · rename_i pending
      cases goes
      have whole : s.flushSend r' = (none, false, s) := (if_neg stored).trans (if_pos pending)
      rw [perform, whole]
    · cases goes
  case flushSend.length r r' => cases last
  case flushSend.wsaSend r r' len =>
    obtain ⟨rfl, rfl, sends, rfl⟩ := mid
    simp only [program, Prod.mk.injEq] at last
    obtain ⟨goes, rfl⟩ := last
    split at goes
    · cases goes
    · rename_i failed
      cases goes
      have whole : s.flushSend r' = (none, true, s) :=
        (if_neg sends.1).trans ((if_neg sends.2).trans (if_neg failed))
      rw [perform, whole]
  case flushSend.readPending r sent => cases last
  case flushSend.writePending r sent count => cases last
  case flushSend.result r sent =>
    obtain ⟨rfl, sends, started, rfl⟩ := mid
    cases last
    have whole : m.flushSend r = (some m.sending, _, _) :=
      (if_neg sends.1).trans ((if_neg sends.2).trans (if_pos started))
    rw [perform, whole]
    rfl
  case sendCompletion.remove n n' => cases last
  case sendCompletion.readCompleted n => cases last
  case sendCompletion.writeCompleted n count =>
    obtain ⟨rfl, rfl⟩ := mid
    cases last
    rfl

theorem midPartly {m : SendSide w} {call : SendCall} {a : SendPoint × SendSide w}
    (partly : program.Partly ((program (w := w)).enter call, m) a) : m.Mid call a := by
  induction partly with
  | refl => exact m.midEnter call
  | tail _ next ih => exact midNext ih next

theorem wholePerforms {T : Type*} {m m' : SendSide w} {a : T × SendCall × SendResult}
    (h : program.Whole m a m') : (a.2.2, m') = m.perform a.2.1 := by
  obtain ⟨last, partly, returns⟩ := h
  exact midReturns (midPartly partly) returns

end SendSide

namespace World
variable {w : Nat} {x y : World w}

def sendSide (x : World w) : SendSide w := ⟨x.session.mSendBuffer, x.session.mSendPendingCount⟩

theorem postSendSide (on : x.session.mConnected ≠ 0) (data : List UInt8) :
    (x.postSend data).1 = (x.sendSide.postSend data).1 ∧
    (x.postSend data).2.sendSide = (x.sendSide.postSend data).2 := by
  by_cases short : x.session.mSendBuffer.getFreeSpaceSize.1 < data.length
  · have whole : x.postSend data = (false, _) := (if_neg on).trans (if_pos short)
    have side : x.sendSide.postSend data = (false, _) := if_pos short
    rw [whole, side]
    exact ⟨rfl, rfl⟩
  · have whole : x.postSend data = (true, _) := (if_neg on).trans (if_neg short)
    have side : x.sendSide.postSend data = (true, _) := if_neg short
    rw [whole, side]
    exact ⟨rfl, rfl⟩

theorem flushSendSide (on : x.session.mConnected ≠ 0) {r lastError b}
    (h : x.flushSend r lastError = .ok (b, y)) :
    b = (x.sendSide.flushSend r).2.1 ∧ y.sendSide = (x.sendSide.flushSend r).2.2 ∧
    ∀ sent, (x.sendSide.flushSend r).1 = some sent →
      sent.1 = x.sendContext.mWsaBuf ∧ y.issued = x.sendContext :: x.issued := by
  rcases flushSendOk h with ⟨rfl, ⟨off, _⟩ | ⟨_, empty, rfl⟩ | ⟨_, stored, pending, rfl⟩⟩ |
    ⟨_, stored, idle, _, ⟨started, rfl, rfl⟩ | ⟨failed, rfl, disconnected⟩⟩
  · exact absurd off on
  · have side : y.sendSide.flushSend r = (none, _, y.sendSide) := if_pos empty.symm
    rw [side]
    exact ⟨by simp only [sendSide, eq_comm], rfl, fun _ same => by cases same⟩
  · have side : y.sendSide.flushSend r = (none, false, y.sendSide) :=
      (if_neg stored.symm).trans (if_pos pending)
    rw [side]
    exact ⟨rfl, rfl, fun _ same => by cases same⟩
  · have side : x.sendSide.flushSend r = (some x.sendSide.sending, _, _) :=
      (if_neg stored.symm).trans ((if_neg (Int.not_lt.mpr idle)).trans (if_pos started))
    rw [side]
    refine ⟨rfl, rfl, fun sent same => ?_⟩
    cases same
    exact ⟨rfl, rfl⟩
  · have side : x.sendSide.flushSend r = (none, true, x.sendSide) :=
      (if_neg stored.symm).trans ((if_neg (Int.not_lt.mpr idle)).trans (if_neg failed))
    obtain ⟨_, buffer, pending, _⟩ := disconnectRequestSends disconnected
    rw [side]
    refine ⟨rfl, ?_, fun _ same => by cases same⟩
    simp only [sendSide, buffer, pending]
    rfl

theorem sendCompletionSide (transferred : Nat) :
    (x.sendCompletion transferred).sendSide = x.sendSide.sendCompletion transferred := rfl

end World
end IocpNetwork.MssqlUsage
