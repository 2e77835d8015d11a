import SealedCall.Host
import SealedCall.Value.Sum

/-! # Variables

The variables from which values are captured. A variable can be bound anew, and what it holds can
be changed in place; everything that holds the same object sees such a change.
-/

namespace SealedCall.Variables

def held (name : Text) : Operation Datum := do
  match (← get).memory.held? name with
  | some datum => pure datum
  | none => Operation.fail (.misuse (.unnamed name))

/-- Binds a variable to a copy of a datum. -/
def assign (name : Text) (datum : Datum) : Operation Datum := do
  let copy ← Operation.place (← Operation.view datum)
  modify fun host => { host with memory := host.memory.bind name copy }
  pure copy

/-- Puts a changed object in its place. -/
def change (place : Nat) (object : Object) : Operation Unit :=
  modify fun host => { host with memory := host.memory.replace place object }

def octetOf (value : Value) : Except Misuse UInt8 :=
  match value.wholeNumber? with
  | some n => if 0 ≤ n ∧ n < 256 then .ok (UInt8.ofNat n.toNat) else .error .notOctet
  | none => .error (.notWhole value.typeName)

def octetHeld (memory : Memory) : Datum → Except Misuse UInt8
  | .fixed value => octetOf value
  | other => .error (.notWhole (memory.typeName other))

/-- Adds an item at the end of what a datum holds. -/
def append (datum item : Datum) : Operation Unit := do
  let memory := (← get).memory
  match datum, memory.object? datum with
  | .object place, some (.list items) => change place (.list (items ++ [item]))
  | .object place, some (.byteArray octets) =>
    match octetHeld memory item with
    | .ok octet => change place (.byteArray (octets ++ [octet]))
    | .error misuse => Operation.fail (.misuse misuse)
  | _, _ =>
    Operation.fail (.misuse (.noAttribute (Text.of (memory.typeName datum)) (Text.of "append")))

/-- The whole number of an index, which has to fit into a signed number of 64 bits. -/
def offset (sequence : String) (index : Value) : Except Misuse Int :=
  match index.wholeNumber? with
  | some n =>
    if -9223372036854775808 ≤ n ∧ n < 9223372036854775808 then .ok n else .error .indexTooWide
  | none => .error (.indexNotWhole sequence index.typeName)

/-- The place that an offset means in a sequence of the given length, if there is one; negative
offsets count from the end. -/
def placeAt? (length : Nat) (offset : Int) : Option Nat :=
  let shifted := if offset < 0 then offset + length else offset
  if 0 ≤ shifted ∧ shifted < length then some shifted.toNat else none

def storedItem (items : List Datum) (index : Value) (item : Datum) :
    Except Misuse (List Datum) := do
  match placeAt? items.length (← offset "list" index) with
  | some place => .ok (items.set place item)
  | none => .error (.indexOutOfRange "list assignment")

/-- Octets with one stored at an index. The octet is looked at before the length of the
sequence. -/
def storedOctet (octets : Octets) (index : Value) (octet : Except Misuse UInt8) :
    Except Misuse Octets := do
  let offset ← offset "bytearray" index
  let octet ← octet
  match placeAt? octets.length offset with
  | some place => .ok (octets.set place octet)
  | none => .error (.indexOutOfRange "bytearray")

/-- Octets with one of them changed by a mask, which has to leave it an octet. -/
def maskedOctet (octets : Octets) (index : Value) (mask : Int) : Except Misuse Octets := do
  match placeAt? octets.length (← offset "bytearray" index) with
  | some place =>
    let octet := (octets.getD place 0).toNat
    storedOctet octets index
      (octetOf (.int (if mask < 0 then mask else Nat.xor octet mask.toNat)))
  | none => .error (.indexOutOfRange "bytearray")

/-- The misuse of storing an item under a key of what takes none. Where there are items at all, an
index that is too wide is refused before that. -/
def unstorable (typeName : String) (key : Value) : Misuse :=
  let refused := Misuse.noItemAssignment typeName
  if ["str", "bytes", "tuple", "range", "set", "frozenset"].contains typeName then
    match offset typeName key with
    | .error .indexTooWide => .indexTooWide
    | _ => refused
  else refused

/-- Stores an item under a key of what a datum holds. -/
def put (datum : Datum) (key : Value) (item : Datum) : Operation Unit := do
  let memory := (← get).memory
  let outcome : Except Misuse (Nat × Object) :=
    match datum, memory.object? datum with
    | .object place, some (.dict entries) =>
      match key.unhashablePart? with
      | some typeName => .error (.unhashable typeName)
      | none => .ok (place, .dict (Value.store key item entries))
    | .object place, some (.list items) => do
      .ok (place, .list (← storedItem items key item))
    | .object place, some (.byteArray octets) => do
      .ok (place, .byteArray (← storedOctet octets key (octetHeld memory item)))
    | _, _ => .error (unstorable (memory.typeName datum) key)
  match outcome with
  | .ok (place, object) => change place object
  | .error misuse => Operation.fail (.misuse misuse)

/-- What adding an amount to what a variable holds comes to: a changed object, or a datum that the
variable is bound to anew. -/
inductive Increase
  | changed (place : Nat) (object : Object)
  | replaced (datum : Datum)

def octetsHeld? (memory : Memory) (datum : Datum) : Option Octets :=
  match datum, memory.object? datum with
  | .fixed (.bytes octets), _ | _, some (.byteArray octets) => some octets
  | _, _ => none

/-- The sum of a datum and an amount. Sequences are joined to sequences of their own kind, but a
list takes in whatever can be gone through. -/
def increased (memory : Memory) (datum amount : Datum) : Except Misuse Increase :=
  let own := memory.typeName datum
  let other := memory.typeName amount
  let unsupported := Misuse.unsupported "+=" own other
  match datum, memory.object? datum with
  | .object place, some (.list items) =>
    match memory.items? amount with
    | some more => .ok (.changed place (.list (items ++ more)))
    | none => .error (.notIterable other)
  | .object place, some (.byteArray octets) =>
    match octetsHeld? memory amount with
    | some more => .ok (.changed place (.byteArray (octets ++ more)))
    | none => .error (.notConcatenated own other)
  | .tuple items, _ =>
    match amount with
    | .tuple more => .ok (.replaced (.tuple (items ++ more)))
    | _ => .error (.onlyConcatenates own other)
  | .fixed (.text t), _ =>
    match amount with
    | .fixed (.text more) => .ok (.replaced (.fixed (.text (t ++ more))))
    | _ => .error (.onlyConcatenates own other)
  | .fixed (.bytes octets), _ =>
    match octetsHeld? memory amount with
    | some more => .ok (.replaced (.fixed (.bytes (octets ++ more))))
    | none => .error (.notConcatenated own other)
  | .fixed value, _ =>
    match amount with
    | .fixed number => (value.plus "+=" number).map fun sum => .replaced (.fixed sum)
    | _ => .error unsupported
  | _, _ => .error unsupported

def increase (name : Text) (amount : Datum) : Operation Datum := do
  let datum ← held name
  let bind := fun datum => modify fun host : Host =>
    { host with memory := host.memory.bind name datum }
  match increased (← get).memory datum amount with
  | .ok (.changed place object) =>
    change place object
    pure datum
  | .ok (.replaced (.fixed value)) =>
    let sum := Datum.fixed (← Operation.computed value)
    bind sum
    pure sum
  | .ok (.replaced other) =>
    bind other
    pure other
  | .error misuse => Operation.fail (.misuse misuse)

end SealedCall.Variables
