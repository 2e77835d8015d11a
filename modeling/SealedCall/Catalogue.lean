import SealedCall.Invocation
import SealedCall.Value.Sum

/-! # Stock actions

Small actions that show what invocation hands over and how it treats what comes back: they note
their arguments, answer with them, change them, pause, or fail in a chosen way. A catalogue lists
the implementations on offer, each under its place, which is its serial number.
-/

namespace SealedCall

/-- What a stock action does with its arguments. -/
inductive StockAction
  | echo
  | echoAfterPause
  | quietEcho
  | count
  | nothing
  | constant (datum : Datum)
  | firstArgument
  | mutate
  | sum
  | pair
  | optionalPair
  | steps (n : Nat)
  | failing (failure : Failure)
  | failingAfterPause (failure : Failure)
  | length
  | absoluteValue

/-- An action on offer: the name under which it notes its calls, the name that messages about its
arguments give it, what it does, and what the roster knows of it. -/
structure Stock where
  name : Text
  qualifiedName : Text
  action : StockAction
  implementation : Implementation

namespace StockAction

/-- Notes a call with the values of its arguments at the moment. -/
def note (name : Text) (arguments : List Datum) : Operation Unit := do
  let values ← arguments.mapM Operation.view
  modify fun host => { host with calls := host.calls ++ [⟨name, values⟩] }

def listOf (data : List Datum) : Operation Datum :=
  modifyGet fun host =>
    let (memory, datum) := host.memory.make (.list data)
    (datum, { host with memory := memory })

/-- The answer of an outcome that may be a misuse. -/
def answer : Except Misuse Value → Operation Datum
  | .ok value => Operation.place value
  | .error misuse => Operation.fail (.misuse misuse)

/-- Adds a mark to the list in the first argument and answers with a copy of that list. -/
def markFirst : List Datum → Operation Datum
  | [] => Operation.fail (.misuse (.indexOutOfRange "tuple"))
  | first :: _ => do
    let memory := (← get).memory
    match first, memory.object? first with
    | .object place, some (.list items) =>
      let marked := items ++ [.fixed (Value.ofString "x")]
      modify fun host => { host with memory := host.memory.replace place (.list marked) }
      listOf marked
    | _, some (.byteArray _) => Operation.fail (.misuse (.notWhole "str"))
    | _, _ =>
      Operation.fail
        (.misuse (.noAttribute (Text.of (memory.typeName first)) (Text.of "append")))

def lengthOf (value : Value) : Except Misuse Value :=
  match value.items? with
  | some items => .ok (.int items.length)
  | none => .error (.noLength value.typeName)

def absoluteOf (value : Value) : Except Misuse Value :=
  match value with
  | .float x => .ok (.float x.abs)
  | .foreign (.complex z) => .ok (.float z.abs)
  | other =>
    match other.wholeNumber? with
    | some n => .ok (.int n.natAbs)
    | none => .error (.badOperand (Text.of "abs") other.typeName)

def ofOne (function : String) (f : Value → Except Misuse Value) :
    List Datum → Operation Datum
  | [only] => do answer (f (← Operation.view only))
  | data => Operation.fail (.misuse (.oneArgument (Text.of function) data.length))

/-- The two arguments of a pair, the second with a stand-in where it may be left out. -/
def pairOf (function : Text) (standIn : Option Datum) : List Datum → Except Misuse (Datum × Datum)
  | [] =>
    .error (.missingArguments function
      (if standIn.isSome then [Text.of "a"] else [Text.of "a", Text.of "b"]))
  | [first] =>
    match standIn with
    | some second => .ok (first, second)
    | none => .error (.missingArguments function [Text.of "b"])
  | [first, second] => .ok (first, second)
  | more => .error (.extraArguments function (if standIn.isSome then 1 else 2) 2 more.length)

/-- Notes and answers with a pair. -/
def paired (stock : Stock) (standIn : Option Datum) (arguments : List Datum) :
    Operation Datum := do
  match pairOf stock.qualifiedName standIn arguments with
  | .ok (first, second) =>
    note stock.name [first, second]
    listOf [first, second]
  | .error misuse => Operation.fail (.misuse misuse)

/-- The failure that comes out of a paused action: an exhausted sequence cannot leave it as
such. -/
def leavingPause : Failure → Failure
  | .raised "StopIteration" _ =>
    .raised "RuntimeError" (Value.ofString "coroutine raised StopIteration")
  | failure => failure

/-- Notes the arguments behind each of the numbers from `number` on, and pauses after each. -/
def noteSteps (name : Text) (arguments : List Datum) : Nat → Nat → Activity Unit
  | _, 0 => .done (.ok ())
  | number, left + 1 =>
    (Activity.ofOperation (note name (.fixed (.int number) :: arguments))).bind fun _ =>
      .pause (noteSteps name arguments (number + 1) left)

/-- What an action does at once, without a pause. -/
def atOnce (stock : Stock) (arguments : List Datum) : Operation Datum := do
  match stock.action with
  | .quietEcho => listOf arguments
  | .pair => paired stock none arguments
  | .optionalPair => paired stock (some (.fixed (.int 5))) arguments
  | .length => ofOne "len" lengthOf arguments
  | .absoluteValue => ofOne "abs" absoluteOf arguments
  | action =>
    note stock.name arguments
    match action with
    | .count => pure (.fixed (.int arguments.length))
    | .nothing => pure (.fixed .null)
    | .constant datum => pure datum
    | .firstArgument =>
      match arguments with
      | first :: _ => pure first
      | [] => Operation.fail (.misuse (.indexOutOfRange "tuple"))
    | .mutate => markFirst arguments
    | .sum => do answer (Value.total (.int 0) (← arguments.mapM Operation.view))
    | .failing failure | .failingAfterPause failure => Operation.fail failure
    | _ => listOf arguments

end StockAction

namespace Stock

/-- A function on offer, defined in a module under a qualified name. -/
def ofFunction (serial : Nat) (name : Text) (module : Value) (qualifiedName : Text)
    (action : StockAction) : Stock :=
  ⟨name, qualifiedName, action, ⟨serial, serial, true, Text.of "function", some module,
    some (.text qualifiedName), some (Text.of "<function " ++ qualifiedName ++ Text.of ">"), true,
    none⟩⟩

/-- A function on offer through an object that it belongs to, which takes no mark. -/
def ofMethod (serial : Nat) (name : Text) (module : Value) (qualifiedName : Text) : Stock :=
  let function := ofFunction serial name module qualifiedName .echo
  { function with implementation :=
    { function.implementation with typeName := Text.of "method", takesMark := false } }

/-- An object on offer that can be called. It has no qualified name, and it equals every other one
of its kin. -/
def ofInstance (serial kin : Nat) (name typeName : Text) (module : Value) (shown : Text) : Stock :=
  ⟨name, [], .quietEcho, ⟨serial, kin, true, typeName, some module, none, some shown, true, none⟩⟩

/-- A function on offer that is part of the language: there is only one of it, and it takes no
mark. -/
def ofBuiltin (serial kin : Nat) (name function : Text) (action : StockAction) : Stock :=
  ⟨name, function, action, ⟨serial, kin, true, Text.of "builtin_function_or_method",
    some (Value.ofString "builtins"), some (.text function),
    some (Text.of "<built-in function " ++ function ++ Text.of ">"), false, none⟩⟩

/-- A value that cannot be called, on offer all the same. -/
def ofValue (serial : Nat) (name : Text) (value : Value) : Stock :=
  ⟨name, [], .nothing,
    ⟨serial, serial, false, Text.of value.typeName, none, none,
      if value.isShowable then some value.shown else none, false, none⟩⟩

def act (stock : Stock) (arguments : List Datum) : Activity Datum :=
  match stock.action with
  | .echoAfterPause =>
    (Activity.ofOperation (StockAction.note stock.name arguments)).bind fun _ =>
      .pause (Activity.ofOperation (StockAction.listOf arguments))
  | .failingAfterPause failure =>
    .pause (Activity.ofOperation do
      StockAction.note stock.name arguments
      Operation.fail (StockAction.leavingPause failure))
  | .steps n =>
    (StockAction.noteSteps stock.name arguments 0 n).bind fun _ =>
      .done (.ok (.fixed (.int arguments.length)))
  | _ => Activity.ofOperation (StockAction.atOnce stock arguments)

end Stock

/-- The actions on offer, in the order of their serial numbers. -/
abbrev Catalogue := List Stock

namespace Catalogue

def behaviour (catalogue : Catalogue) : Behaviour := fun implementation arguments =>
  match catalogue[implementation.serial]? with
  | some stock => stock.act arguments
  | none => .done (.ok (.fixed .null))

/-- The first action that is the given implementation, or else the first that equals it. -/
def named? (catalogue : Catalogue) (implementation : Implementation) : Option Stock :=
  match catalogue.find? fun stock => stock.implementation.serial == implementation.serial with
  | some stock => some stock
  | none => catalogue.find? fun stock => stock.implementation.equal implementation

/-- The serial number of the next offer of a part of the language: the one that it has already, if
it is on offer, since there is only one of it. -/
def serialFor (catalogue : Catalogue) (kin : Nat) : Nat :=
  match catalogue.find? fun stock => stock.implementation.kin == kin with
  | some stock => stock.implementation.serial
  | none => catalogue.length

/-- The action that was offered last under a name. -/
def latest? (catalogue : Catalogue) (name : Text) : Option Stock :=
  catalogue.reverse.find? fun stock => stock.name == name

end Catalogue

end SealedCall
