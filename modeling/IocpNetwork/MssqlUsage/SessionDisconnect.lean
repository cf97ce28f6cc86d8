import IocpNetwork.MssqlUsage.SessionSteps

/-! A session that is no longer connected should be on its way out: its disconnect is
in flight or has completed. DisconnectRequest clears mConnected, but the call that
stands for DisconnectEx is never issued, so every effective request leaves a session
that nothing will finish. -/
namespace IocpNetwork.MssqlUsage.World
open Runs (Run Move actions)

variable {w : Nat} {x y : World w}

def DisconnectInFlight (x : World w) : Prop :=
  ∃ c ∈ x.live, c.mIoType = .ioDisconnect ∧ c ∈ x.issued

def HalfDisconnected (x : World w) : Prop :=
  x.session.mConnected = 0 ∧ ¬ x.DisconnectInFlight ∧ x.onDisconnect = []

def Disconnects (x : World w) : Action → Prop
  | .disconnectRequest _ _ | .failedCompletion _ _ => x.session.mConnected ≠ 0
  | .flushSend r _ => x.session.mConnected ≠ 0 ∧ x.session.mSendBuffer.getContiguiousBytes ≠ 0 ∧
      x.session.mSendPendingCount ≤ 0 ∧ ¬ r.Started
  | .preRecv _ | .postRecv _ | .postSend _ | .completion _ _ => False

structure Connected (x : World w) : Prop where
  connected : x.session.mConnected ≠ 0
  early : x.onDisconnect = []
  noneLive : ∀ c ∈ x.live, c.mIoType ≠ .ioDisconnect
  noneIssued : ∀ c ∈ x.issued, c.mIoType ≠ .ioDisconnect

theorem startConnected {s : Session w} (on : s.mConnected ≠ 0) : (start s).Connected where
  connected := on
  early := rfl
  noneLive := fun _ mem => absurd mem List.not_mem_nil
  noneIssued := fun _ mem => absurd mem List.not_mem_nil

theorem Connected.notHalf (on : x.Connected) : ¬ x.HalfDisconnected :=
  fun half => on.connected half.1

theorem Connected.posted (on : x.Connected) {c : OverlappedIOContext} (kind : c.mIoType ≠ .ioDisconnect) :
    ((x.opened c).issue c).Connected where
  connected := on.connected
  early := on.early
  noneLive := fun d mem => by
    rcases List.mem_cons.mp mem with rfl | old
    · exact kind
    · exact on.noneLive d old
  noneIssued := fun d mem => by
    rcases List.mem_cons.mp mem with rfl | old
    · exact kind
    · exact on.noneIssued d old

theorem Connected.closed (on : x.Connected) (c : OverlappedIOContext) : (x.closed c).Connected where
  connected := on.connected
  early := on.early
  noneLive := fun d mem => on.noneLive d (List.mem_of_mem_erase mem)
  noneIssued := on.noneIssued

theorem Connected.refused (on : x.Connected) (c : OverlappedIOContext) :
    ((x.opened c).closed c).Connected where
  connected := on.connected
  early := on.early
  noneLive := fun d mem => on.noneLive d (by simpa [World.closed, opened] using mem)
  noneIssued := on.noneIssued

theorem Connected.buffers (on : x.Connected) (connected : y.session.mConnected = x.session.mConnected)
    (early : y.onDisconnect = x.onDisconnect) (live : y.live = x.live) (issued : y.issued = x.issued) :
    y.Connected where
  connected := connected ▸ on.connected
  early := early.trans on.early
  noneLive := live ▸ on.noneLive
  noneIssued := issued ▸ on.noneIssued

theorem HalfDisconnected.closed (half : x.HalfDisconnected) (c : OverlappedIOContext) :
    (x.closed c).HalfDisconnected := by
  obtain ⟨off, quiet, early⟩ := half
  refine ⟨off, ?_, early⟩
  rintro ⟨d, mem, kind, issued⟩
  exact quiet ⟨d, List.mem_of_mem_erase mem, kind, issued⟩

theorem Connected.disconnectRequest (on : x.Connected) {dr lastError}
    (ran : x.disconnectRequest dr lastError = .ok y) : y.HalfDisconnected := by
  have opened : ∀ c, ((x.setConnected 0).opened c).HalfDisconnected := fun c =>
    ⟨rfl, fun ⟨d, _, kind, issued⟩ => on.noneIssued d issued kind, on.early⟩
  rcases disconnectRequestOk ran with ⟨off, _⟩ | ⟨_, _, c, _, ⟨_, rfl⟩ | ⟨_, rfl⟩⟩
  · exact absurd off on.connected
  · exact opened c
  · exact (opened c).closed c

/- One step from a session that was never disconnected: either it stays so, or the
step is one of those that disconnect and the result is stuck. -/
theorem Connected.step (on : x.Connected) {a : Action × Option Bool} (h : Step x a y) :
    (¬ x.Disconnects a.1 ∧ y.Connected) ∨ (x.Disconnects a.1 ∧ y.HalfDisconnected) := by
  obtain ⟨act, out⟩ := a
  obtain ⟨enabled, ran⟩ := h
  cases act with
  | preRecv r =>
    obtain ⟨b, ran, _⟩ := returningBoolOk ran
    refine .inl ⟨id, ?_⟩
    rcases preRecvOk ran with ⟨_, _, rfl⟩ | ⟨_, _, c, rfl, ⟨_, _, rfl⟩ | ⟨_, _, rfl⟩⟩
    · exact on
    · exact on.posted (by simp [fresh])
    · exact on.refused _
  | postRecv r =>
    obtain ⟨b, ran, _⟩ := returningBoolOk ran
    refine .inl ⟨id, ?_⟩
    have moved : (x.setRecvBuffer x.session.mRecvBuffer.getFreeSpaceSize.2).Connected :=
      on.buffers rfl rfl rfl rfl
    rcases postRecvOk ran with ⟨_, _, rfl⟩ |
      ⟨_, z, rfl, ⟨_, _, rfl⟩ | ⟨_, _, c, rfl, ⟨_, _, rfl⟩ | ⟨_, _, rfl⟩⟩⟩
    · exact on
    · exact moved
    · exact moved.posted (by simp [fresh])
    · exact moved.refused _
  | postSend data =>
    obtain ⟨b, ran, _⟩ := returningBoolOk ran
    refine .inl ⟨id, ?_⟩
    rcases postSendOk (Except.ok.inj ran) with ⟨_, _, rfl⟩ | ⟨_, ⟨_, _, rfl⟩ | ⟨_, _, rfl⟩⟩
    · exact on
    · exact on.buffers rfl rfl rfl rfl
    · exact on.buffers rfl rfl rfl rfl
  | flushSend r lastError =>
    obtain ⟨b, ran, _⟩ := returningBoolOk ran
    by_cases stops : x.Disconnects (.flushSend r lastError)
    · obtain ⟨live, some, idle, failed⟩ := stops
      have disconnected := flushSendFailed live some idle failed ran
      exact .inr ⟨⟨live, some, idle, failed⟩, (on.refused _).disconnectRequest disconnected⟩
    · refine .inl ⟨stops, ?_⟩
      rcases flushSendOk ran with ⟨rfl, _⟩ | ⟨live, some, idle, _, ⟨_, _, rfl⟩ | ⟨failed, _⟩⟩
      · exact on
      · have posted := on.posted (c := x.sendContext) (by simp [sendContext, fresh])
        exact posted.buffers rfl rfl rfl rfl
      · exact absurd ⟨live, some, idle, failed⟩ stops
  | disconnectRequest dr lastError =>
    exact .inr ⟨on.connected, on.disconnectRequest (returningOk ran).1⟩
  | failedCompletion c lastError =>
    obtain ⟨z, disconnected, rfl⟩ := failedCompletionOk (returningOk ran).1
    exact .inr ⟨on.connected, (on.disconnectRequest disconnected).closed c⟩
  | completion c n =>
    refine .inl ⟨id, ?_⟩
    rcases completionOk (returningOk ran).1 with ⟨_, rfl⟩ | ⟨_, rfl⟩ | ⟨kind, _⟩ | ⟨_, _, _, rfl⟩
    · have removed : (x.sendCompletion n).Connected := on.buffers rfl rfl rfl rfl
      exact removed.closed c
    · have committed : (x.recvCompletion n).Connected := on.buffers rfl rfl rfl rfl
      exact committed.closed c
    · exact absurd kind (on.noneLive c enabled)
    · exact on.closed c

theorem noHalfDisconnectedSession (s : Session w) (connected : s.mConnected = 1)
    (moves : List (Move (World w) (Action × Option Bool))) (x : World w)
    (run : Run Step (start s) moves x) :
    (∀ m ∈ moves, ¬ m.after.HalfDisconnected) ↔ ∀ m ∈ moves, ¬ m.before.Disconnects m.action.1 := by
  have on : (start s).Connected := startConnected (by omega)
  refine run.everyMoveIff (I := Connected) (fun m => ¬ m.after.HalfDisconnected)
    (fun x a => ¬ x.Disconnects a.1) ?_ ?_ on
  · intro x a y on step
    rcases on.step step with ⟨stays, next⟩ | ⟨stops, half⟩
    · exact ⟨fun _ => stays, fun _ => next.notHalf⟩
    · exact ⟨fun good => absurd half good, fun stays => absurd stops stays⟩
  · intro x a y on step good
    rcases on.step step with ⟨_, next⟩ | ⟨_, half⟩
    · exact next
    · exact absurd half good

theorem noHalfDisconnectedPosting : ∃ moves x, Run Step (start idleSession) moves x ∧
    (actions moves).map Prod.fst = [.preRecv .done, .postSend [1, 2, 3], .flushSend .done 0] ∧
    ∀ m ∈ moves, ¬ m.after.HalfDisconnected := by
  have ran : ∃ x, (start idleSession).perform
      [.preRecv .done, .postSend [1, 2, 3], .flushSend .done 0] = some x := ⟨_, rfl⟩
  obtain ⟨x, ran⟩ := ran
  obtain ⟨moves, run, same⟩ := performRun ran
  refine ⟨moves, x, run, same, (noHalfDisconnectedSession idleSession rfl moves x run).mpr ?_⟩
  intro m mem stops
  have taken : m.action.1 ∈ (actions moves).map Prod.fst :=
    List.mem_map_of_mem (List.mem_map_of_mem mem)
  rw [same] at taken
  simp only [List.mem_cons, List.not_mem_nil, or_false] at taken
  rcases taken with h | h | h <;> rw [h] at stops
  · exact stops
  · exact stops
  · exact stops.2.2.2 trivial

theorem halfDisconnectedAfterRequest : ¬ ∀ moves x, Run Step (start idleSession) moves x →
    x.session.mConnected = 0 → x.DisconnectInFlight ∨ x.onDisconnect ≠ [] := by
  intro claimed
  have ran : ∃ x, (start idleSession).perform [.disconnectRequest .drActive 10057] = some x ∧
      x.session.mConnected = 0 ∧ x.live = [] ∧ x.onDisconnect = [] := ⟨_, rfl, rfl, rfl, rfl⟩
  obtain ⟨x, ran, off, empty, early⟩ := ran
  obtain ⟨moves, run, _⟩ := performRun ran
  rcases claimed moves x run off with ⟨c, mem, _⟩ | completed
  · rw [empty] at mem
    exact List.not_mem_nil mem
  · exact completed early

end IocpNetwork.MssqlUsage.World
