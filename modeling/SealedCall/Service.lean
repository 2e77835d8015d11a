import SealedCall.Invocation
import SealedCall.Enrolment

/-! # Service

A service is the host's roster together with the key of the deployment.
-/

namespace SealedCall

/-- The key under which references are sealed and opened. -/
structure Service where
  key : Key

namespace Service

def ofValue (key : Value) : Except Failure Service :=
  match Key.ofValue key with
  | .ok key => .ok ⟨key⟩
  | .error failure => .error failure

def keyValue (service : Service) : Value := .bytes service.key.octets

/-- Binds data as they are at the moment and seals the reference. -/
def issue (service : Service) (id : Value) (data : List Datum) : Operation Reference := do
  let handle ← Handle.ofRegistered id
  let reference ← handle.bind data
  reference.sealWith service.keyValue

/-- Declares a bind that is evaluated and sealed at each use. -/
def defer (service : Service) (id : Value) (values : Operation Datum) : Operation DeferredBind := do
  let handle ← Handle.ofRegistered id
  return ⟨handle.id, values, some service.key⟩

def run (service : Service) (behaviour : Behaviour) (reference : Reference)
    (arguments : List Datum) : Activity Datum :=
  Invocation.run behaviour reference arguments service.keyValue

/-- An outcome as it is reported among others: a cancellation is reported without what it said. -/
def reported {α : Type} : Except Failure α → Except Failure α
  | .error (.raised "CancelledError" _) =>
    .error (.raised "CancelledError" (Value.ofString ""))
  | outcome => outcome

/-- Invokes several references together, and reports their outcomes in the order in which they were
given. An implementation that raises an interrupt or an exit is reported as any other, although it
would end the loop that runs them. -/
def runTogether (service : Service) (behaviour : Behaviour)
    (orders : List (Reference × List Datum)) (host : Host) :
    List (Except Failure Datum) × Host :=
  let (outcomes, host) :=
    Scheduling.gather (orders.map fun order => service.run behaviour order.1 order.2) host
  (outcomes.map reported, host)

/-- Invokes the reference of a wire form. -/
def runWritten (service : Service) (behaviour : Behaviour) (data : Value)
    (arguments : List Datum) : Activity Datum :=
  match Reference.ofWireValue data with
  | .ok reference => service.run behaviour reference arguments
  | .error failure => .done (.error failure)

end Service

end SealedCall
