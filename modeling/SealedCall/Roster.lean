import SealedCall.Implementation
import SealedCall.Json.Printer

/-! # Roster

The roster maps action ids to implementations. The first enrolment of an id stays for good:
the same implementation may be registered again and changes nothing, and any other is refused.
-/

namespace SealedCall

/-- What is held under an id. The name is whatever the enrolment gave, or the full name of the
implementation. -/
structure RosterEntry where
  id : Text
  implementation : Implementation
  name : Value

/-- The registered actions in the order of their enrolment, and the salt of derived ids. -/
structure Roster where
  salt : Value
  actions : List RosterEntry

/-- What an enrolment that is not refused comes to. -/
inductive Admission
  | known (entry : RosterEntry)
  | added (entry : RosterEntry)

def Admission.entry : Admission → RosterEntry
  | .known entry | .added entry => entry

namespace Roster

def empty (salt : Value) : Roster := ⟨salt, []⟩

/-- What is held under a text. -/
def find? (roster : Roster) (id : Text) : Option RosterEntry :=
  roster.actions.find? fun entry => entry.id == id

/-- What is held under a value. Only texts are ids, and a value that cannot be a key is not even
looked for. -/
def lookup (roster : Roster) (id : Value) : Except Failure (Option RosterEntry) :=
  match id with
  | .text t => .ok (roster.find? t)
  | other =>
    match other.unhashablePart? with
    | some typeName => .error (.misuse (.unhashable typeName))
    | none => .ok none

/-- The failure of an id under which nothing is held. -/
def unknown (id : Value) : Failure := (Failure.unknownAction id).checked

def entry (roster : Roster) (id : Value) : Except Failure RosterEntry :=
  match roster.lookup id with
  | .ok (some entry) => .ok entry
  | .ok none => .error (unknown id)
  | .error failure => .error failure

def implementationOf (roster : Roster) (id : Value) : Except Failure Implementation :=
  match roster.entry id with
  | .ok entry => .ok entry.implementation
  | .error failure => .error failure

def contains (roster : Roster) (id : Value) : Except Failure Bool :=
  match roster.lookup id with
  | .ok found => .ok found.isSome
  | .error failure => .error failure

/-- The ids in code-point order. -/
def ids (roster : Roster) : List Text :=
  (roster.actions.map (·.id)).mergeSort Text.atMost

/-- The ids in code-point order, each with the name held under it. -/
def namesById (roster : Roster) : List (Text × Value) :=
  Json.sortedByKey (roster.actions.map fun entry => (entry.id, entry.name))

def size (roster : Roster) : Nat := roster.actions.length

def nameFor (implementation : Implementation) (name : Value) : Except Failure Value :=
  if name.isTruthy then .ok name else implementation.fullName.map .text

/-- What registering an implementation under an id comes to. -/
def admission (roster : Roster) (id : Value) (implementation : Implementation) (name : Value) :
    Except Failure Admission :=
  match id with
  | .text [] => .error (.misuse .emptyActionId)
  | .text t =>
    if implementation.isCallable then
      match roster.find? t with
      | some present =>
        if present.implementation.equal implementation then .ok (.known present)
        else .error (.duplicateAction id)
      | none =>
        (nameFor implementation name).map fun name => .added ⟨t, implementation, name⟩
    else .error (.misuse (.notCallable t))
  | _ => .error (.misuse .emptyActionId)

/-- The roster after an admission. -/
def after (roster : Roster) : Admission → Roster
  | .known _ => roster
  | .added entry => { roster with actions := roster.actions ++ [entry] }

end Roster

end SealedCall
