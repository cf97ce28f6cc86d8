import IocpNetwork.MssqlUsage.WorkerThread
import IocpNetwork.WinIocp.SessionRecycling
import Mathlib.Logic.Function.Basic

/-! The completion loops of both servers over all their sessions: IoWorkerThread of
IocpManager.hpp and DoIocpJob of WorkerThread.hpp, on whatever GetQueuedCompletionStatus
delivers. Without a context there is no session, and nothing to read the I/O type from. -/
namespace IocpNetwork
open Fallible (FailsOnly Loop Iteration)
open Runs (Run Move)

structure Outcome (ι C R : Type) where
  ret : Int
  dwTransferred : Nat
  context : Option (ι × C)
  lastError : Nat
  calls : R

/- GetQueuedCompletionStatus fails where it dequeues nothing. -/
def Outcome.Delivered {ι C R : Type} (o : Outcome ι C R) : Prop := o.context = none → o.ret = 0

namespace CompletionLoops

section Loops
variable {ι C R S ε : Type} {exec : S → Outcome ι C R → Except ε S}

def LoopStep (exec : S → Outcome ι C R → Except ε S) (before : Loop S ε) (o : Outcome ι C R)
    (after : Loop S ε) : Prop := Iteration exec before o after ∧ o.Delivered

def Survives (null : ε → Prop) (m : Move (Loop S ε) (Outcome ι C R)) : Prop :=
  (∀ e, m.after = .stopped e → ¬ null e) ∧ (m.action.context = none → m.after = m.before)

theorem survivesIff (null : ε → Prop) (idle : Outcome ι C R → Prop)
    (handled : ∀ s o, o.context ≠ none → FailsOnly (fun e => ¬ null e) (exec s o))
    (ignored : ∀ s o, o.context = none → o.ret = 0 → idle o → exec s o = .ok s)
    (crashes : ∀ s o, o.context = none → o.ret = 0 → ¬ idle o → ∃ e, exec s o = .error e ∧ null e)
    {before moves after} (run : Run (LoopStep exec) before moves after) :
    (∀ m ∈ moves, Survives null m) ↔ ∀ m ∈ moves, m.action.context ≠ none ∨ idle m.action := by
  refine run.everyMoveIff (I := fun _ => True) (Survives null)
    (fun _ o => o.context ≠ none ∨ idle o) ?_ (fun _ _ _ _ _ _ => trivial) trivial
  rintro s o t - ⟨iteration, delivered⟩
  rcases Option.eq_none_or_eq_some o.context with none | ⟨c, context⟩
  · by_cases quiet : idle o
    · refine ⟨fun _ => .inr quiet, fun _ => ?_⟩
      cases iteration with
      | goes ran =>
        rw [ignored _ o none (delivered none) quiet] at ran
        cases ran
        exact ⟨fun e stopped => (by cases stopped), fun _ => rfl⟩
      | fails ran =>
        rw [ignored _ o none (delivered none) quiet] at ran
        contradiction
    · refine ⟨fun survives => ?_, fun meets => absurd (meets.resolve_left fun some => some none) quiet⟩
      cases iteration with
      | @goes s _ _ ran =>
        obtain ⟨e, failed, _⟩ := crashes s o none (delivered none) quiet
        rw [failed] at ran
        contradiction
      | @fails s _ _ ran =>
        obtain ⟨e, failed, isNull⟩ := crashes s o none (delivered none) quiet
        rw [failed] at ran
        cases ran
        exact absurd isNull (survives.1 _ rfl)
  · have some : o.context ≠ Option.none := by simp [context]
    refine ⟨fun _ => .inl some, fun _ => ⟨fun e stopped => ?_, fun none => absurd none some⟩⟩
    cases iteration with
    | goes ran => contradiction
    | fails ran =>
      cases stopped
      exact handled _ o some _ ran

end Loops

end CompletionLoops

namespace WinIocp
variable {w : Nat}

def NullError : Crash → Prop
  | .nullContext | .nullClient => True
  | .addRefNotPositive | .releaseRefNegative | .wrongThread | .alreadyConnected | .unknownIoType => False

abbrev NoNull {α : Type} (result : Except Crash α) : Prop := FailsOnly (fun e => ¬ NullError e) result

def nullIteration (ret : Int) (transferred : Nat) : Except Crash Unit :=
  if ret = 0 ∨ transferred = 0 then .error .nullContext else .error .nullClient

namespace World

theorem ioWorkerThreadNull (x : World w) (ret : Int) (transferred : Nat) (calls : AcceptCalls)
    (r : WsaResult) : x.ioWorkerThread ret transferred none calls r =
      (nullIteration ret transferred).map fun _ => x := by
  unfold ioWorkerThread nullIteration
  split <;> rfl

theorem constructNoNull (x : World w) (c : OverlappedIOContext) : NoNull (x.construct c) := by
  refine FailsOnly.bind ?_ fun _ => .ok _
  unfold addRef
  dsimp only
  split
  · exact .ok _
  · exact .error id

theorem disconnectRequestNoNull (x : World w) (dr : DisconnectReason) :
    NoNull (x.disconnectRequest dr) := by
  unfold disconnectRequest
  split
  · exact .ok _
  · exact constructNoNull _ _

theorem preRecvNoNull (x : World w) : NoNull x.preRecv := by
  unfold preRecv
  split
  · exact .ok _
  · exact .bind (constructNoNull _ _) fun _ => .ok _

theorem postSendNoNull (x : World w) (r : WsaResult) : NoNull (x.postSend r) := by
  unfold postSend
  split
  · exact .ok _
  · exact .bind (constructNoNull _ _) fun _ => .ok _

theorem disconnectCompletionNoNull (x : World w) : NoNull x.disconnectCompletion := by
  refine FailsOnly.bind ?_ fun _ => .ok _
  unfold releaseRef
  dsimp only
  split
  · split <;> exact .ok _
  · exact .error id

theorem acceptCompletionNoNull (x : World w) (t : ThreadType) (calls : AcceptCalls) :
    NoNull (x.acceptCompletion t calls) := by
  unfold acceptCompletion
  split
  · exact .error id
  · split
    · exact .error id
    · dsimp only
      split
      · exact disconnectRequestNoNull _ _
      · exact .bind (preRecvNoNull _) fun _ => .ok _

theorem dispatchNoNull (x : World w) (c : OverlappedIOContext) (n : Nat) (calls : AcceptCalls)
    (r : WsaResult) : NoNull (x.dispatch c n calls r) := by
  unfold dispatch
  cases c.mIoType with
  | ioDisconnect => exact .bind (disconnectCompletionNoNull x) fun _ => .ok _
  | ioAccept => exact .bind (acceptCompletionNoNull x _ calls) fun _ => .ok _
  | ioRecvZero => exact preRecvNoNull x
  | ioSend =>
    simp only [managerSendCompletion]
    split
    · exact .ok _
    · exact preRecvNoNull _
  | ioRecv => exact postSendNoNull _ r
  | ioNone => exact .error id

theorem handleNoNull (x : World w) (c : OverlappedIOContext) (n : Nat) (calls : AcceptCalls)
    (r : WsaResult) : NoNull (x.handle c n calls r) := by
  refine .bind (dispatchNoNull x c n calls r) fun result => ?_
  dsimp only
  split
  · exact .ok _
  · exact .bind (disconnectRequestNoNull _ _) fun _ => .ok _

theorem ioWorkerThreadNoNull (x : World w) (ret : Int) (n : Nat) (c : OverlappedIOContext)
    (calls : AcceptCalls) (r : WsaResult) : NoNull (x.ioWorkerThread ret n (some c) calls r) := by
  unfold ioWorkerThread
  split
  · dsimp only
    split
    · exact .bind (disconnectRequestNoNull _ _) fun _ => .ok _
    · exact handleNoNull x c n calls r
  · exact handleNoNull x c n calls r

end World

def iteration {ι : Type} [DecidableEq ι] (sessions : ι → World w)
    (o : Outcome ι OverlappedIOContext (AcceptCalls × WsaResult)) : Except Crash (ι → World w) :=
  match o.context with
  | none => (nullIteration o.ret o.dwTransferred).map fun _ => sessions
  | some (i, context) =>
      ((sessions i).ioWorkerThread o.ret o.dwTransferred (some context) o.calls.1 o.calls.2).map
        (Function.update sessions i)

end WinIocp

namespace MssqlUsage
variable {w : Nat}

def NullError : Crash → Prop
  | .nullContext | .nullRemote => True
  | .addRefNotPositive | .releaseRefNegative | .unknownIoType => False

abbrev NoNull {α : Type} (result : Except Crash α) : Prop := FailsOnly (fun e => ¬ NullError e) result

namespace World

theorem constructNoNull (x : World w) (c : OverlappedIOContext) : NoNull (x.construct c) := by
  refine FailsOnly.bind ?_ fun _ => .ok _
  unfold addRef
  dsimp only
  split
  · exact .ok _
  · exact .error id

theorem deleteNoNull (x : World w) (c : OverlappedIOContext) : NoNull (x.deleteIoContext (some c)) := by
  refine FailsOnly.bind ?_ fun y => ?_
  · unfold releaseRef
    dsimp only
    split
    · split <;> exact .ok _
    · exact .error id
  · cases c.mIoType with
    | ioNone => exact .error id
    | _ => exact .ok _

theorem disconnectRequestNoNull (x : World w) (dr : DisconnectReason) (lastError : Nat) :
    NoNull (x.disconnectRequest dr lastError) := by
  unfold disconnectRequest
  split
  · exact .ok _
  · refine .bind (constructNoNull _ _) fun y => ?_
    split
    · split
      · exact deleteNoNull _ _
      · exact .ok _
    · exact .ok _

theorem doIocpJobNoNull (x : World w) {d : Dequeued} {c : OverlappedIOContext} (wsaError : Nat)
    (context : d.context = some c) : NoNull (x.doIocpJob d wsaError) := by
  unfold doIocpJob
  rw [context]
  dsimp only
  split
  · exact .bind (.bind (disconnectRequestNoNull _ _ _) fun _ => deleteNoNull _ _) fun _ => .ok _
  · cases c.mIoType <;> exact .ok _

end World

def iteration {ι : Type} [DecidableEq ι] (sessions : ι → World w)
    (o : Outcome ι OverlappedIOContext Nat) : Except Crash (ι → World w) :=
  let d : Dequeued := ⟨o.ret, o.dwTransferred, o.context.map Prod.snd, o.lastError⟩
  match o.context with
  | none => (World.nullJob d).map fun _ => sessions
  | some (i, _) => ((sessions i).doIocpJob d o.calls).map fun (_, y) => Function.update sessions i y

end MssqlUsage

namespace CompletionLoops
variable {w : Nat} {ι : Type} [DecidableEq ι]

theorem ioWorkerSurvives {before after : Loop (ι → WinIocp.World w) WinIocp.Crash} {moves}
    (run : Run (LoopStep WinIocp.iteration) before moves after) :
    (∀ m ∈ moves, Survives WinIocp.NullError m) ↔ ∀ m ∈ moves, m.action.context ≠ none := by
  have survives := survivesIff WinIocp.NullError (fun _ => False) ?_ ?_ ?_ run
  · simpa using survives
  · intro s o some
    obtain ⟨⟨i, c⟩, context⟩ := Option.ne_none_iff_exists'.mp some
    simp only [WinIocp.iteration, context]
    exact .map _ (WinIocp.World.ioWorkerThreadNoNull _ _ _ _ _ _)
  · exact fun _ _ _ _ => False.elim
  · intro s o none failed _
    refine ⟨.nullContext, ?_, trivial⟩
    simp only [WinIocp.iteration, none, WinIocp.nullIteration, failed, true_or, if_true]
    rfl

theorem doIocpJobSurvives {before after : Loop (ι → MssqlUsage.World w) MssqlUsage.Crash} {moves}
    (run : Run (LoopStep MssqlUsage.iteration) before moves after) :
    (∀ m ∈ moves, Survives MssqlUsage.NullError m) ↔
      ∀ m ∈ moves, m.action.context ≠ none ∨ m.action.lastError = waitTimeout := by
  refine survivesIff _ (fun o => o.lastError = waitTimeout) ?_ ?_ ?_ run
  · intro s o some
    obtain ⟨⟨i, c⟩, context⟩ := Option.ne_none_iff_exists'.mp some
    simp only [MssqlUsage.iteration, context]
    exact .map _ (MssqlUsage.World.doIocpJobNoNull _ _ rfl)
  · intro s o none failed timeOut
    simp only [MssqlUsage.iteration, none, MssqlUsage.World.nullJob, failed, timeOut, true_or, if_true]
    rfl
  · intro s o none failed other
    refine ⟨.nullContext, ?_, trivial⟩
    simp only [MssqlUsage.iteration, none, MssqlUsage.World.nullJob, failed, other, true_or, if_true,
      if_false]
    rfl

theorem completionLoopsSurvive (w : Nat) (ι : Type) [DecidableEq ι] :
    (∀ (sessions : ι → WinIocp.World w) moves last,
      Run (LoopStep WinIocp.iteration) (.running sessions) moves last →
      ((∀ m ∈ moves, Survives WinIocp.NullError m) ↔ ∀ m ∈ moves, m.action.context ≠ none)) ∧
    (∀ (sessions : ι → MssqlUsage.World w) moves last,
      Run (LoopStep MssqlUsage.iteration) (.running sessions) moves last →
      ((∀ m ∈ moves, Survives MssqlUsage.NullError m) ↔
        ∀ m ∈ moves, m.action.context ≠ none ∨ m.action.lastError = waitTimeout)) :=
  ⟨fun _ _ _ run => ioWorkerSurvives run, fun _ _ _ run => doIocpJobSurvives run⟩

theorem completionLoopsSurviveTimeOut :
    (∃ moves last, Run (LoopStep WinIocp.iteration)
        (.running fun _ : Nat => .start WinIocp.World.connectedSession) moves last ∧
      moves.length = 1 ∧ ∀ m ∈ moves, Survives WinIocp.NullError m) ∧
    (∃ moves last, Run (LoopStep MssqlUsage.iteration)
        (.running fun _ : Nat => .start MssqlUsage.World.idleSession) moves last ∧
      moves.length = 1 ∧ ∀ m ∈ moves, Survives MssqlUsage.NullError m) := by
  constructor
  · have run : ∃ moves last, Run (LoopStep WinIocp.iteration)
          (.running fun _ : Nat => .start WinIocp.World.connectedSession) moves last ∧
        moves.length = 1 ∧ ∀ m ∈ moves, m.action.context ≠ none :=
      ⟨_, _, .more (a := ⟨0, 0, some (7, ⟨0, .ioSend, ⟨0, none⟩, .drNone⟩), 64, ⟨true, true, true, true⟩, .done⟩)
        ⟨.goes rfl, fun _ => rfl⟩ (.done _), rfl, by simp⟩
    obtain ⟨moves, last, run, length, meets⟩ := run
    exact ⟨moves, last, run, length, ((completionLoopsSurvive 64 Nat).1 _ moves last run).mpr meets⟩
  · have run : ∃ moves last, Run (LoopStep MssqlUsage.iteration)
          (.running fun _ : Nat => .start MssqlUsage.World.idleSession) moves last ∧
        moves.length = 1 ∧ ∀ m ∈ moves, m.action.context ≠ none ∨ m.action.lastError = waitTimeout :=
      ⟨_, _, .more (a := ⟨0, 0, none, waitTimeout, 0⟩) ⟨.goes rfl, fun _ => rfl⟩ (.done _), rfl, by simp⟩
    obtain ⟨moves, last, run, length, meets⟩ := run
    exact ⟨moves, last, run, length, ((completionLoopsSurvive 64 Nat).2 _ moves last run).mpr meets⟩

theorem completionLoopsNullContext :
    (¬ ∀ moves last, Run (LoopStep WinIocp.iteration)
        (.running fun _ : Nat => .start WinIocp.World.connectedSession) moves last →
      ∀ m ∈ moves, Survives WinIocp.NullError m) ∧
    (¬ ∀ moves last, Run (LoopStep MssqlUsage.iteration)
        (.running fun _ : Nat => .start MssqlUsage.World.idleSession) moves last →
      ∀ m ∈ moves, Survives MssqlUsage.NullError m) := by
  constructor
  · intro claimed
    have survives := claimed _ _ (.more
      (a := ⟨0, 0, none, waitTimeout, ⟨true, true, true, true⟩, .done⟩)
      ⟨.fails rfl, fun _ => rfl⟩ (.done _)) _ List.mem_cons_self
    exact survives.1 _ rfl trivial
  · intro claimed
    have survives := claimed _ _ (.more (a := ⟨0, 0, none, 735, 0⟩)
      ⟨.fails rfl, fun _ => rfl⟩ (.done _)) _ List.mem_cons_self
    exact survives.1 _ rfl trivial

end CompletionLoops
end IocpNetwork
