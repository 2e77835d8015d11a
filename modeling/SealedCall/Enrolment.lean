import SealedCall.Host

/-! # Enrolment

Enrolment puts an implementation on the host's roster and leaves its log records. The declaration
of an action does everything in one step: it names the action, derives an id unless one is given,
enrols the implementation, and marks it with the id.
-/

namespace SealedCall.Enrolment

/-- Enrols an implementation under an id. -/
def enrol (id : Value) (implementation : Implementation) (name : Value) :
    Operation RosterEntry := do
  let roster := (← get).roster
  match roster.admission id implementation name with
  | .ok (.known entry) => pure entry
  | .ok (.added entry) =>
    modify fun host => { host with roster := roster.after (.added entry) }
    Operation.record .debug .roster
      (Text.of "Registered action " ++ entry.id ++ Text.of " -> " ++ entry.name.plain)
    pure entry
  | .error failure =>
    if let .duplicateAction id := failure then
      Operation.record .warning .roster
        (Text.of "Refusing to re-register action " ++ id.plain)
    Operation.fail failure

/-- Declares an implementation as an action and answers with the implementation marked. -/
def declare (id name : Value) (implementation : Implementation) : Operation Implementation := do
  let fullName ← Operation.ofExcept (Roster.nameFor implementation name)
  let roster := (← get).roster
  let chosen ← if id.isTruthy then pure id
    else match implementation.derivedId roster.salt with
      | .ok derived => pure (Value.text derived)
      | .error failure => Operation.fail failure
  let _ ← enrol chosen implementation fullName
  Operation.ofExcept (implementation.marked chosen)

end SealedCall.Enrolment
