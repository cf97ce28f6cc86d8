import IocpNetwork.MssqlUsage.EchoBack
import IocpNetwork.MssqlUsage.SendPipeline

/-! DoIocpJob of WorkerThread.hpp, and a session whose operations it completes while
nothing fails. The loop takes a receive or a send of no bytes for a dead peer. -/
namespace IocpNetwork.MssqlUsage
open Fallible (bindOk mapOk)
open Runs (Run Move actions execute executeRun)

structure Dequeued where
  ret : Int
  dwTransferred : Nat
  context : Option OverlappedIOContext
  lastError : Nat
  deriving DecidableEq, Repr

namespace World
variable {w : Nat} {x y : World w}

def connectCompletion (x : World w) : World w := x

/- Where there is no context: only after a time-out is none of its fields read. -/
def nullJob (d : Dequeued) : Except Crash Unit :=
  if d.ret = 0 ∨ d.dwTransferred = 0 then
    if d.lastError = waitTimeout then .ok () else .error .nullContext
  else .error .nullRemote

def doIocpJob (x : World w) (d : Dequeued) (wsaError : Nat) :
    Except Crash (Option DisconnectReason × World w) :=
  match d.context with
  | none => (nullJob d).map fun _ => (none, x)
  | some context =>
      if (d.ret = 0 ∨ d.dwTransferred = 0) ∧
          (context.mIoType = .ioRecv ∨ context.mIoType = .ioSend) then do
        let x ← x.failedCompletion context wsaError
        .ok (some .drCompletionError, x)
      else
        match context.mIoType with
        | .ioConnect => .ok (none, x.connectCompletion)
        | .ioNone | .ioSend | .ioRecv | .ioRecvZero | .ioAccept | .ioDisconnect => .ok (none, x)

theorem doIocpJobOk {d wsaError dr} (h : x.doIocpJob d wsaError = .ok (dr, y)) :
    (d.context = none ∧ d.lastError = waitTimeout ∧ dr = none ∧ y = x) ∨
    ∃ c, d.context = some c ∧
      (((d.ret = 0 ∨ d.dwTransferred = 0) ∧ (c.mIoType = .ioRecv ∨ c.mIoType = .ioSend) ∧
          dr = some .drCompletionError ∧ x.failedCompletion c wsaError = .ok y) ∨
        (¬ ((d.ret = 0 ∨ d.dwTransferred = 0) ∧ (c.mIoType = .ioRecv ∨ c.mIoType = .ioSend)) ∧
          dr = none ∧ y = x)) := by
  unfold doIocpJob at h
  split at h
  · rename_i null
    obtain ⟨_, idle, same⟩ := mapOk h
    cases same
    unfold nullJob at idle
    split at idle <;> try contradiction
    split at idle <;> try contradiction
    rename_i timeOut
    exact .inl ⟨null, timeOut, rfl, rfl⟩
  · rename_i c context
    refine .inr ⟨c, context, ?_⟩
    split at h
    · rename_i dead
      obtain ⟨z, failed, last⟩ := bindOk h
      cases last
      exact .inl ⟨dead.1, dead.2, rfl, failed⟩
    · rename_i alive
      refine .inr ⟨alive, ?_⟩
      split at h <;> cases h <;> exact ⟨rfl, rfl⟩

end World

structure Port (w : Nat) where
  world : World w
  dequeued : List OverlappedIOContext

inductive Event where
  | call (a : Action)
  | echoBack
  | doIocpJob (d : Dequeued) (wsaError : Nat)

namespace Port
variable {w : Nat} {x y : Port w}

def opened (s : Session w) : Port w := ⟨.start s, []⟩

def HealthyCall : Action → Prop
  | .preRecv r | .postRecv r | .flushSend r _ => r.Started
  | .postSend _ => True
  | .disconnectRequest _ _ | .failedCompletion _ _ | .completion _ _ => False

/- No call of the sockets fails, and each operation that was started completes once,
with at most the bytes it was posted for and with one at least where there are any. -/
def Healthy (x : Port w) : Event → Prop
  | .call a => HealthyCall a
  | .echoBack => True
  | .doIocpJob d _ =>
      match d.context with
      | none => d.ret = 0
      | some c => c ∈ x.world.issued ∧ c ∉ x.dequeued ∧ d.ret ≠ 0 ∧
          min 1 c.mWsaBuf.len ≤ d.dwTransferred ∧ d.dwTransferred ≤ c.mWsaBuf.len

instance (a : Action) : Decidable (HealthyCall a) :=
  match a with
  | .preRecv r | .postRecv r | .flushSend r _ => inferInstanceAs (Decidable r.Started)
  | .postSend _ => isTrue trivial
  | .disconnectRequest _ _ | .failedCompletion _ _ | .completion _ _ => isFalse id
instance (x : Port w) (e : Event) : Decidable (x.Healthy e) := by
  unfold Healthy
  split <;> try infer_instance
  split <;> infer_instance

def exec (x : Port w) : Event → Except Crash (Option DisconnectReason × Port w)
  | .call a => (x.world.exec a).map fun (_, y) => (none, {x with world := y})
  | .echoBack => .ok (none, {x with world := x.world.echoBack})
  | .doIocpJob d wsaError =>
      (x.world.doIocpJob d wsaError).map fun (dr, y) => (dr, ⟨y, d.context.toList ++ x.dequeued⟩)

def Step (x : Port w) (e : Event × Option DisconnectReason) (y : Port w) : Prop :=
  x.Healthy e.1 ∧ x.exec e.1 = .ok (e.2, y)

/- The completions that are taken for a dead peer: those of PostRecv, which posts no
room, and of a send whose length was cut to 0. -/
def Drops : Event → Prop
  | .doIocpJob d _ => ∃ c ∈ d.context,
      c.mIoType = .ioRecv ∨ (c.mIoType = .ioSend ∧ c.mWsaBuf.len = 0)
  | .call _ | .echoBack => False
instance (e : Event) : Decidable (Drops e) := by cases e <;> unfold Drops <;> infer_instance

/- PostRecv copies PreRecv: len = 0 and buf = nullptr. -/
def RecvWithoutRoom (x : Port w) : Prop :=
  ∀ c ∈ x.world.issued, c.mIoType = .ioRecv → c.mWsaBuf.len = 0

theorem RecvWithoutRoom.issue {world : World w} (noRoom : x.RecvWithoutRoom)
    {c : OverlappedIOContext} (issued : world.issued = c :: x.world.issued)
    (room : c.mIoType = .ioRecv → c.mWsaBuf.len = 0) : ({x with world := world} : Port w).RecvWithoutRoom := by
  intro d mem
  rw [issued] at mem
  rcases List.mem_cons.mp mem with rfl | old
  · exact room
  · exact noRoom d old

theorem RecvWithoutRoom.kept {dequeued} {world : World w} (noRoom : x.RecvWithoutRoom)
    (issued : world.issued = x.world.issued) : (⟨world, dequeued⟩ : Port w).RecvWithoutRoom :=
  fun c mem => noRoom c (issued ▸ mem)

theorem callIssues {x y : World w} {a : Action} {out} (ran : x.exec a = .ok (out, y))
    (healthy : HealthyCall a) :
    y.issued = x.issued ∨ ∃ c, y.issued = c :: x.issued ∧ (c.mIoType = .ioRecv → c.mWsaBuf.len = 0) := by
  cases a with
  | preRecv r =>
    obtain ⟨b, ran, _⟩ := World.returningBoolOk ran
    rcases World.preRecvOk ran with ⟨_, _, rfl⟩ | ⟨_, _, c, rfl, ⟨_, _, rfl⟩ | ⟨_, _, rfl⟩⟩
    · exact .inl rfl
    · exact .inr ⟨_, rfl, fun _ => rfl⟩
    · exact .inl rfl
  | postRecv r =>
    obtain ⟨b, ran, _⟩ := World.returningBoolOk ran
    rcases World.postRecvOk ran with ⟨_, _, rfl⟩ |
      ⟨_, z, rfl, ⟨_, _, rfl⟩ | ⟨_, _, c, rfl, ⟨_, _, rfl⟩ | ⟨_, _, rfl⟩⟩⟩
    · exact .inl rfl
    · exact .inl rfl
    · exact .inr ⟨_, rfl, fun _ => rfl⟩
    · exact .inl rfl
  | postSend data =>
    obtain ⟨b, ran, _⟩ := World.returningBoolOk ran
    rcases World.postSendOk (Except.ok.inj ran) with ⟨_, _, rfl⟩ | ⟨_, ⟨_, _, rfl⟩ | ⟨_, _, rfl⟩⟩ <;>
      exact .inl rfl
  | flushSend r lastError =>
    obtain ⟨b, ran, _⟩ := World.returningBoolOk ran
    rcases World.flushSendOk ran with ⟨rfl, _⟩ | ⟨_, _, _, _, ⟨_, _, rfl⟩ | ⟨failed, _⟩⟩
    · exact .inl rfl
    · exact .inr ⟨x.sendContext, rfl, fun kind => by cases kind⟩
    · exact absurd healthy failed
  | disconnectRequest dr lastError => exact absurd healthy id
  | failedCompletion c lastError => exact absurd healthy id
  | completion c n => exact absurd healthy id

theorem doIocpJobIssued {x y : World w} {d wsaError dr} (h : x.doIocpJob d wsaError = .ok (dr, y)) :
    y.issued = x.issued := by
  rcases World.doIocpJobOk h with ⟨_, _, _, rfl⟩ | ⟨c, _, ⟨_, _, _, failed⟩ | ⟨_, _, rfl⟩⟩
  · rfl
  · obtain ⟨z, disconnected, rfl⟩ := World.failedCompletionOk failed
    exact (World.disconnectRequestSends disconnected).2.2.2
  · rfl

theorem stepNoRoom (x : Port w) (e : Event × Option DisconnectReason) (y : Port w)
    (noRoom : x.RecvWithoutRoom) (h : Step x e y) : y.RecvWithoutRoom := by
  obtain ⟨event, dr⟩ := e
  obtain ⟨healthy, ran⟩ := h
  cases event with
  | call a =>
    obtain ⟨⟨out, world⟩, called, same⟩ := mapOk ran
    cases same
    rcases callIssues called healthy with kept | ⟨c, issued, room⟩
    · exact noRoom.kept kept
    · exact noRoom.issue issued room
  | echoBack =>
    cases ran
    exact noRoom.kept x.world.echoBackFrame.2
  | doIocpJob d wsaError =>
    obtain ⟨⟨dr, world⟩, called, same⟩ := mapOk ran
    cases same
    exact noRoom.kept (doIocpJobIssued called)

theorem stepDrops (x : Port w) (e : Event × Option DisconnectReason) (y : Port w)
    (noRoom : x.RecvWithoutRoom) (h : Step x e y) : e.2 = none ↔ ¬ Drops e.1 := by
  obtain ⟨event, dr⟩ := e
  obtain ⟨healthy, ran⟩ := h
  cases event with
  | call a =>
    obtain ⟨_, _, same⟩ := mapOk ran
    cases same
    exact ⟨fun _ => id, fun _ => rfl⟩
  | echoBack =>
    cases ran
    exact ⟨fun _ => id, fun _ => rfl⟩
  | doIocpJob d wsaError =>
    obtain ⟨⟨dr, world⟩, called, same⟩ := mapOk ran
    cases same
    rcases World.doIocpJobOk called with ⟨null, _, rfl, _⟩ | ⟨c, context, outcome⟩
    · refine ⟨fun _ => ?_, fun _ => rfl⟩
      rintro ⟨c, context, _⟩
      rw [null] at context
      contradiction
    · simp only [Healthy, context] at healthy
      obtain ⟨issued, _, succeeded, atLeast, atMost⟩ := healthy
      rcases outcome with ⟨empty, type, rfl, _⟩ | ⟨other, rfl, _⟩
      · -- the completion had no bytes, so the operation had no room for one
        have zero : c.mWsaBuf.len = 0 := by
          have none : d.dwTransferred = 0 := empty.resolve_left succeeded
          omega
        refine ⟨fun request => (by cases request), fun keeps => absurd ⟨c, context, ?_⟩ keeps⟩
        exact type.imp_right fun send => ⟨send, zero⟩
      · refine ⟨fun _ => ?_, fun _ => rfl⟩
        rintro ⟨c', context', drops⟩
        rw [context] at context'
        cases context'
        rcases drops with recv | ⟨send, zero⟩
        · have zero := noRoom c issued recv
          exact other ⟨.inr (by omega), .inl recv⟩
        · exact other ⟨.inr (by omega), .inr send⟩

theorem healthySessionKept (s : Session w)
    (moves : List (Move (Port w) (Event × Option DisconnectReason))) (x : Port w)
    (run : Run Step (opened s) moves x) :
    (∀ m ∈ moves, m.action.2 = none) ↔ ∀ m ∈ moves, ¬ Drops m.action.1 :=
  run.everyMoveIff (I := RecvWithoutRoom) (fun m => m.action.2 = none) (fun _ e => ¬ Drops e.1)
    stepDrops (fun x e y noRoom h _ => stepNoRoom x e y noRoom h) (fun _ mem => absurd mem List.not_mem_nil)

theorem healthySessionKeptSending : ∃ moves x, Run Step (opened World.idleSession) moves x ∧
    (actions moves).map Prod.fst = [.call (.preRecv .done),
      .doIocpJob ⟨1, 0, some ⟨0, .ioRecvZero, ⟨0, none⟩, .drNone⟩, 0⟩ 0,
      .call (.postSend [1, 2]), .call (.flushSend .done 0),
      .doIocpJob ⟨1, 2, some ⟨1, .ioSend, ⟨2, some 8192⟩, .drNone⟩, 0⟩ 0,
      .doIocpJob ⟨0, 0, none, waitTimeout⟩ 0] ∧
    ∀ m ∈ moves, m.action.2 = none := by
  have ran : ∃ moves x, execute Healthy exec (opened World.idleSession) [.call (.preRecv .done),
      .doIocpJob ⟨1, 0, some ⟨0, .ioRecvZero, ⟨0, none⟩, .drNone⟩, 0⟩ 0,
      .call (.postSend [1, 2]), .call (.flushSend .done 0),
      .doIocpJob ⟨1, 2, some ⟨1, .ioSend, ⟨2, some 8192⟩, .drNone⟩, 0⟩ 0,
      .doIocpJob ⟨0, 0, none, waitTimeout⟩ 0] = some (moves, x) ∧
      ∀ m ∈ moves, ¬ Drops m.action.1 := ⟨_, _, rfl, by decide⟩
  obtain ⟨moves, x, ran, meets⟩ := ran
  obtain ⟨run, calls⟩ := executeRun ran
  exact ⟨moves, x, run, calls, (healthySessionKept World.idleSession moves x run).mpr meets⟩

theorem healthySessionDropped : ¬ ∀ moves x, Run Step (opened World.idleSession) moves x →
    ∀ m ∈ moves, m.action.2 = none := by
  intro claimed
  have ran : ∃ moves x, execute Healthy exec (opened World.idleSession) [.call (.postRecv .done),
      .doIocpJob ⟨1, 0, some ⟨0, .ioRecv, ⟨0, none⟩, .drNone⟩, 0⟩ 0] = some (moves, x) ∧
      ¬ ∀ m ∈ moves, m.action.2 = none := ⟨_, _, rfl, by decide⟩
  obtain ⟨moves, x, ran, dropped⟩ := ran
  exact dropped (claimed moves x (executeRun ran).1)

end Port
end IocpNetwork.MssqlUsage
