import SealedCall.Enrolment
import SealedCall.Loading.Resident

/-! # Loading modules

Modules declare actions when they are loaded, once each, and resident ones not at all. A dotted
name is loaded from the left: the module before a dot comes first, and has to be a package, which it
is when some module lies below it. A module that fails while it is loaded keeps the declarations
made so far.
-/

namespace SealedCall

/-- A declaration in a module: the name of the function, and the id and the name given to the
action, null when they are left out. -/
structure Declaration where
  function : Text
  id : Value
  name : Value

/-- A module that can be loaded: what it declares, and the failure that it ends with if it
fails. -/
structure ActionModule where
  name : Text
  declarations : List Declaration
  failure : Option Failure

/-- The names of the modules loaded so far, and the number of functions that they made. -/
structure Loaded where
  names : List Text
  functions : Nat

namespace ActionModule

/-- A new function of a module. No other object equals it. -/
def function (module name : Text) (serial : Nat) : Implementation where
  serial := serial
  kin := serial
  isCallable := true
  typeName := Text.of "function"
  module := some (.text module)
  qualifiedName := some (.text name)
  shown := some (Text.of "<function " ++ name ++ Text.of ">")
  takesMark := true
  mark := none

/-- Makes the declarations of a module in their order, with functions counted from a number. -/
def declareAll (module : Text) : Nat → List Declaration → Operation Unit
  | _, [] => pure ()
  | serial, declaration :: rest => do
    let _ ← Enrolment.declare declaration.id declaration.name
      (function module declaration.function serial)
    declareAll module (serial + 1) rest

/-- The name of what a module lies in: what comes before its last dot. -/
def parentName? (name : Text) : Option Text :=
  match (Text.splitAt '.' name).dropLast with
  | [] => none
  | parts => some (Text.joinWith (Text.of ".") parts)

/-- The names that a dotted name is loaded through, itself included. -/
def path (name : Text) : List Text :=
  let parts := Text.splitAt '.' name
  (List.range parts.length).map fun i => Text.joinWith (Text.of ".") (parts.take (i + 1))

/-- Whether modules may lie below a name: some does, or it is resident and would let them. -/
def isPackage (modules : List ActionModule) (name : Text) : Bool :=
  Resident.isPackage name ||
    modules.any fun module => (name ++ Text.of ".").isPrefixOf module.name

/-- The module with a name, when nothing keeps it from being loaded. -/
def find (modules : List ActionModule) (name : Text) : Except Failure ActionModule :=
  let found := match modules.find? fun module => module.name == name with
    | some module => .ok module
    | none => .error (.misuse (.noModule name))
  match parentName? name with
  | none => found
  | some parent =>
    if isPackage modules parent then found
    else .error (.misuse (.noModuleIn name parent))

/-- Loads the module with a name after the ones it lies in. -/
def loadStep (modules : List ActionModule) (loaded : Loaded) (name : Text) : Operation Loaded := do
  if Resident.isLoaded name || loaded.names.contains name then return loaded
  let module ← Operation.ofExcept (find modules name)
  declareAll name loaded.functions module.declarations
  match module.failure with
  | some failure => Operation.fail failure
  | none => return ⟨loaded.names ++ [name], loaded.functions + module.declarations.length⟩

/-- Loads a module and, before it, the ones it lies in. A name that starts with a dot does not say
where to start from. -/
def load (modules : List ActionModule) (loaded : Loaded) (name : Text) : Operation Loaded := do
  match name with
  | [] => Operation.fail (.misuse .emptyModuleName)
  | first :: _ =>
    if first.is '.' then Operation.fail (.misuse (.relativeModule name))
    else (path name).foldlM (loadStep modules) loaded

end ActionModule

end SealedCall
