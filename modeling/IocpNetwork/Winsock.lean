import Mathlib.Logic.Basic

/-! The parts of the socket interface that both servers use. -/
namespace IocpNetwork

structure WsaBuf where
  len : Nat
  buf : Option Nat
  deriving DecidableEq, Repr

def wsaIoPending : Nat := 997
def waitTimeout : Nat := 258

inductive WsaResult where
  | done
  | socketError (lastError : Nat)
  deriving DecidableEq, Repr

def WsaResult.Started : WsaResult → Prop
  | .done => True
  | .socketError e => e = wsaIoPending
instance (r : WsaResult) : Decidable r.Started := by unfold WsaResult.Started; split <;> infer_instance

end IocpNetwork
