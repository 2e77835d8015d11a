import SealedCall.ActionId

/-! # Implementations

What the roster knows of the code behind an action: which object it is, which others it equals,
whether it can be called, and what it tells about where it is defined. What the code does is no
part of it.
-/

namespace SealedCall

/-- An object offered as an implementation. Two descriptions of one `serial` are the same object,
and objects of one `kin` are equal. An attribute that is `none` is not there at all, and an object
without a form that shows it can only appear under a name that it is given. -/
structure Implementation where
  serial : Nat
  kin : Nat
  isCallable : Bool
  typeName : Text
  module : Option Value
  qualifiedName : Option Value
  shown : Option Text
  takesMark : Bool
  mark : Option Value

namespace Implementation

/-- Whether two implementations are equal: that is, whether they are of one kin. So every one equals
itself and equality goes both ways; objects that answer otherwise when they are compared, or that do
something on being asked, are no implementations here. -/
def equal (a b : Implementation) : Bool := a.kin == b.kin

/-- An attribute when it is there and counts as present. -/
def present? : Option Value → Option Value
  | some value => if value.isTruthy then some value else none
  | none => none

/-- The name under which an implementation appears when it is given none: its module and its
qualified name, with stand-ins for what it does not tell. -/
def fullName (implementation : Implementation) : Except Failure Text :=
  let module := match present? implementation.module with
    | some value => value.plain
    | none => Text.of "<unknown>"
  let name := match present? implementation.qualifiedName with
    | some value => some value.plain
    | none => implementation.shown
  match name with
  | some name => .ok (module ++ ActionId.separator ++ name)
  | none => .error (.misuse .tooManyDigits)

def required (implementation : Implementation) (given? : Option Value) (name : String) :
    Except Failure Value :=
  match given? with
  | some value => .ok value
  | none => .error (.misuse (.noAttribute implementation.typeName (Text.of name)))

/-- The id derived from where an implementation is defined. -/
def derivedId (implementation : Implementation) (salt : Value) : Except Failure Text := do
  let module ← implementation.required implementation.module "__module__"
  let name ← implementation.required implementation.qualifiedName "__qualname__"
  ActionId.derive salt module name

/-- The implementation with an id marked on it, when it takes the mark. What does not take it has no
place for it; a type that nothing may be set on refuses in other words, which are not told apart
here. -/
def marked (implementation : Implementation) (id : Value) : Except Failure Implementation :=
  if implementation.takesMark then .ok { implementation with mark := some id }
  else .error (.misuse (.noAttribute implementation.typeName (Text.of "__action_id__")))

end Implementation

end SealedCall
