import SealedCall.Reference
import SealedCall.Scheduling
import SealedCall.Value.Tag

/-! # Invocation

Invoking a reference recovers its values, looks up the implementation and applies it to the values
followed by the caller's arguments. Whatever turns the reference away does so before the
implementation runs, and whatever the implementation raises is wrapped. Every invocation runs in a
span of its own.
-/

namespace SealedCall

/-- A process on the host. -/
abbrev Activity (α : Type) := Process Host Failure α

/-- What every implementation does when it is called. It may do anything to the host, pause, and end
in any failure that there is, but in no other: see `Failure.raised` for what that leaves out. -/
abbrev Behaviour := Implementation → List Datum → Activity Datum

/-- Why a failure counts as a rejection. -/
def Failure.rejection? : Failure → Option Rejection
  | .integrity => some .integrity
  | .malformed _ => some .malformed
  | .unknownAction _ => some .unknownAction
  | _ => none

namespace Activity

def ofOperation {α : Type} (operation : Operation α) : Activity α :=
  Process.ofStep operation.perform

end Activity

namespace Invocation

def rejections {α : Type} (id : Value) : Except Failure α → List (Value × Rejection)
  | .ok _ => []
  | .error failure =>
    match failure.rejection? with
    | some reason => [(id, reason)]
    | none => []

/-- An activity inside a span, which ends with it. -/
def spanned {α : Type} (id : Value) (activity : Activity α) : Activity α :=
  activity.andThen fun outcome =>
    .inspect fun host =>
      .update { host with spans := host.spans ++ [⟨id.tag, rejections id.tag outcome⟩] }
        (.done outcome)

/-- What comes before the implementation runs: the recovered values and the implementation. -/
def prepare (reference : Reference) (key : Value) :
    Operation (List Datum × Implementation) := do
  let recovered ← reference.recover key
  let implementation ← Operation.ofExcept ((← get).roster.implementationOf reference.id)
  return (recovered, implementation)

/-- The failure of an action whose implementation raised one. -/
def raisedBy (id : Value) (cause : Failure) : Operation Datum := do
  Operation.record .error .invocation (Text.of "Action " ++ id.plain ++ Text.of " raised")
  Operation.fail (Failure.execution id cause).checked

/-- The implementation at work on its arguments, with whatever it raises wrapped. -/
def apply (behaviour : Behaviour) (id : Value) (implementation : Implementation)
    (arguments : List Datum) : Activity Datum :=
  (behaviour implementation arguments).andThen fun
    | .ok result => .done (.ok result)
    | .error failure =>
      if failure.isAbort then .done (.error failure)
      else Activity.ofOperation (raisedBy id failure)

/-- Invokes a reference with the caller's arguments. -/
def run (behaviour : Behaviour) (reference : Reference) (arguments : List Datum)
    (key : Value) : Activity Datum :=
  spanned reference.id <|
    (Activity.ofOperation (prepare reference key)).bind fun (recovered, implementation) =>
      apply behaviour reference.id implementation (recovered ++ arguments)

end Invocation

end SealedCall
