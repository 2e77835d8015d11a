import SealedCall.Value.Equality

/-! # Memory

Lists, dictionaries and octet arrays can change, so variables and other objects hold them by their
place in memory, and a change shows wherever the place is held. Everything else is fixed. Viewing
a datum gives the whole value it stands for at the moment; placing a value gives it new places of
its own. What equals only itself has a number, and memory counts the numbers that were given out.
-/

namespace SealedCall

/-- A value as it is held: fixed data itself, a tuple with its items, and an object that can change
by its place. -/
inductive Datum
  | fixed (value : Value)
  | tuple (items : List Datum)
  | object (place : Nat)

instance : Inhabited Datum := ⟨.fixed .null⟩

/-- An object that can change. -/
inductive Object
  | list (items : List Datum)
  | dict (entries : List (Value × Datum))
  | byteArray (octets : Octets)

/-- The objects in the order in which they were made, the variables that hold data, and how many
numbers were given out. -/
structure Memory where
  objects : Array Object
  bindings : List (Text × Datum)
  numbered : Nat

namespace Memory

def empty : Memory := ⟨#[], [], 0⟩

/-- The value that a datum stands for, unless it nests deeper than the given number of levels. -/
def viewWithin (memory : Memory) : Nat → Datum → Option Value
  | _, .fixed value => some value
  | 0, .tuple _ => none
  | 0, .object place =>
    match memory.objects[place]? with
    | some (.byteArray octets) => some (.byteArray octets)
    | _ => none
  | levels + 1, .tuple items =>
    (items.mapM fun item => viewWithin memory levels item).map .tuple
  | levels + 1, .object place =>
    match memory.objects[place]? with
    | some (.list items) => (items.mapM fun item => viewWithin memory levels item).map .list
    | some (.dict entries) =>
      (entries.mapM fun entry =>
        (viewWithin memory levels entry.2).map fun value => (entry.1, value)).map .dict
    | some (.byteArray octets) => some (.byteArray octets)
    | none => none

/-- The value that a datum stands for, unless it nests too deep. -/
def view (memory : Memory) (datum : Datum) : Option Value :=
  memory.viewWithin nestingLimit datum

def viewAll (memory : Memory) (data : List Datum) : Option (List Value) :=
  data.mapM memory.view

/-- A new object. -/
def make (memory : Memory) (object : Object) : Memory × Datum :=
  ({ memory with objects := memory.objects.push object }, .object memory.objects.size)

/-- The next number. The number zero is never given out. -/
def number (memory : Memory) : Memory × Nat :=
  ({ memory with numbered := memory.numbered + 1 }, memory.numbered + 1)

mutual

/-- A value with places of its own for everything in it that can change, and with new objects where
it holds some without content. -/
def place (memory : Memory) : Value → Memory × Datum
  | .list items =>
    let (memory, data) := placeAll memory items
    memory.make (.list data)
  | .tuple items =>
    let (memory, data) := placeAll memory items
    (memory, .tuple data)
  | .dict entries =>
    let (memory, data) := placeEntries memory entries
    memory.make (.dict data)
  | .byteArray octets => memory.make (.byteArray octets)
  | .foreign (.object _) =>
    let (memory, number) := memory.number
    (memory, .fixed (.foreign (.object number)))
  | other => (memory, .fixed other)

def placeAll (memory : Memory) : List Value → Memory × List Datum
  | [] => (memory, [])
  | item :: rest =>
    let (memory, datum) := place memory item
    let (memory, data) := placeAll memory rest
    (memory, datum :: data)

/-- The values of a dictionary placed one after the other, beside their keys. -/
def placeEntries (memory : Memory) : List (Value × Value) → Memory × List (Value × Datum)
  | [] => (memory, [])
  | (key, value) :: rest =>
    let (memory, datum) := place memory value
    let (memory, data) := placeEntries memory rest
    (memory, (key, datum) :: data)

end

/-- The object that a datum holds, if it holds one. -/
def object? (memory : Memory) : Datum → Option Object
  | .object place => memory.objects[place]?
  | _ => none

def typeName (memory : Memory) : Datum → String
  | .fixed value => value.typeName
  | .tuple _ => "tuple"
  | .object place =>
    match memory.objects[place]? with
    | some (.list _) => "list"
    | some (.dict _) => "dict"
    | some (.byteArray _) => "bytearray"
    | none => "object"

def isTruthy (memory : Memory) : Datum → Bool
  | .fixed value => value.isTruthy
  | .tuple items => !items.isEmpty
  | .object place =>
    match memory.objects[place]? with
    | some (.list items) => !items.isEmpty
    | some (.dict entries) => !entries.isEmpty
    | some (.byteArray octets) => !octets.isEmpty
    | none => true

/-- The data that going through a datum gives one after the other, held as they are. -/
def items? (memory : Memory) : Datum → Option (List Datum)
  | .fixed value => value.items?.map fun items => items.map .fixed
  | .tuple items => some items
  | .object place =>
    match memory.objects[place]? with
    | some (.list items) => some items
    | some (.dict entries) => some (entries.map fun entry => .fixed entry.1)
    | some (.byteArray octets) => some (octets.map fun octet => .fixed (Value.ofOctet octet))
    | none => none

/-- The object at a place changed into another. -/
def replace (memory : Memory) (place : Nat) (object : Object) : Memory :=
  { memory with objects := memory.objects.setIfInBounds place object }

def held? (memory : Memory) (name : Text) : Option Datum :=
  (memory.bindings.find? fun entry => entry.1 == name).map (·.2)

def bound (name : Text) (datum : Datum) : List (Text × Datum) → List (Text × Datum)
  | [] => [(name, datum)]
  | (present, old) :: rest =>
    if present = name then (name, datum) :: rest else (present, old) :: bound name datum rest

def bind (memory : Memory) (name : Text) (datum : Datum) : Memory :=
  { memory with bindings := bound name datum memory.bindings }

end Memory

end SealedCall
