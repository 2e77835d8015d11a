import SealedCall.Number.Complex
import SealedCall.Text.Utf8

/-! # Values

The data that actions are bound to and called with: plain data of every kind the surrounding
language offers, as a tree. Only part of it has a snapshot form; the rest can be captured and
handed over inside one process.
-/

namespace SealedCall

/-- Values that take no part in snapshots. An object without any content is nothing but itself,
which its number tells. -/
inductive ForeignKind
  | object (number : Nat)
  | emptySet
  | frozenSet
  | complex (z : ComplexNumber)
  | range
  | integerType
deriving DecidableEq

/-- A value with everything it holds. The entries of a dictionary stand in insertion order, and no
two of its keys are equal. -/
inductive Value
  | null
  | bool (b : Bool)
  | int (n : Int)
  | float (x : Binary64)
  | text (t : Text)
  | bytes (octets : Octets)
  | byteArray (octets : Octets)
  | list (items : List Value)
  | tuple (items : List Value)
  | dict (entries : List (Value × Value))
  | foreign (kind : ForeignKind)

instance : Inhabited Value := ⟨.null⟩

/-- How many levels of lists, tuples and dictionaries may stand inside each other wherever values
are walked through. This is an ideal: it stands for the depth of the stack, of which the callers
take their part. Reading and printing give out a few levels earlier, and printing takes one level
more for a dictionary of several entries. What gives out much earlier has a limit of its own. -/
def nestingLimit : Nat := 1000

/-- Whole numbers of more than 4300 decimal digits have no decimal text. -/
def digitLimit : Nat := Nat.pow 10 4300

namespace ForeignKind

def typeName : ForeignKind → String
  | .object _ => "object"
  | .emptySet => "set"
  | .frozenSet => "frozenset"
  | .complex _ => "complex"
  | .range => "range"
  | .integerType => "type"

/-- Whether it counts as present: empty sets and zero do not. -/
def isTruthy : ForeignKind → Bool
  | .emptySet | .frozenSet => false
  | .complex z => !z.isZero
  | _ => true

/-- Whether two of them are equal. The two kinds of sets do not differ while they are empty. -/
def equal : ForeignKind → ForeignKind → Bool
  | .object j, .object k => j == k
  | .emptySet, .emptySet | .emptySet, .frozenSet | .frozenSet, .emptySet
  | .frozenSet, .frozenSet => true
  | .complex z, .complex w => z.equal w
  | .range, .range => true
  | .integerType, .integerType => true
  | _, _ => false

end ForeignKind

namespace Value

def typeName : Value → String
  | .null => "NoneType"
  | .bool _ => "bool"
  | .int _ => "int"
  | .float _ => "float"
  | .text _ => "str"
  | .bytes _ => "bytes"
  | .byteArray _ => "bytearray"
  | .list _ => "list"
  | .tuple _ => "tuple"
  | .dict _ => "dict"
  | .foreign kind => kind.typeName

def ofString (s : String) : Value := .text (Text.of s)

/-- Whether the value counts as present: zeros and empty values do not. -/
def isTruthy : Value → Bool
  | .null => false
  | .bool b => b
  | .int n => n != 0
  | .float x => !x.isZero
  | .text t => !t.isEmpty
  | .bytes octets | .byteArray octets => !octets.isEmpty
  | .list items | .tuple items => !items.isEmpty
  | .dict entries => !entries.isEmpty
  | .foreign kind => kind.isTruthy

/-- The value with another mark, where it is a number that is none. -/
def marked (mark : Nat) : Value → Value
  | .float x => .float (x.marked mark)
  | .foreign (.complex z) => .foreign (.complex (z.marked mark))
  | other => other

def ofOctet (octet : UInt8) : Value := .int octet.toNat

/-- The items of the range. -/
def rangeItems : List Value := [.int 0, .int 1, .int 2]

/-- The values that going through a value gives one after the other, when it can be gone
through: the items of a sequence, the code points of a text, the keys of a dictionary. -/
def items? : Value → Option (List Value)
  | .text t => some (t.map fun point => .text [point])
  | .bytes octets | .byteArray octets => some (octets.map ofOctet)
  | .list items | .tuple items => some items
  | .dict entries => some (entries.map (·.1))
  | .foreign .emptySet | .foreign .frozenSet => some []
  | .foreign .range => some rangeItems
  | _ => none

mutual

/-- The type of the first part of a value that cannot serve inside a dictionary key. -/
def unhashablePart? : Value → Option String
  | .byteArray _ => some "bytearray"
  | .list _ => some "list"
  | .dict _ => some "dict"
  | .foreign .emptySet => some "set"
  | .tuple items => firstUnhashable? items
  | _ => none

/-- The first part that cannot serve inside a key, among several values. -/
def firstUnhashable? : List Value → Option String
  | [] => none
  | item :: rest =>
    match unhashablePart? item with
    | some name => some name
    | none => firstUnhashable? rest

end

end Value

end SealedCall
