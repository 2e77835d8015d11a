import SealedCall.Json.Printer
import SealedCall.Json.Reader

/-! # Snapshot encoding

A snapshot is a sequence of captured values. Its encoding is canonical JSON, and only values that
read back unchanged are let through: a tuple would come back as a list, and a key that is no text
as a text.
-/

namespace SealedCall

/-- Captured values in order. -/
abbrev Snapshot := List Value

namespace Snapshot

def itemPath (path : Text) (index : Nat) : Text :=
  path ++ CodePoint.ofChar '[' :: Text.ofNat index ++ [CodePoint.ofChar ']']

def entryPath (path key : Text) : Text :=
  path ++ CodePoint.ofChar '[' :: key.quoted ++ [CodePoint.ofChar ']']

def valuePath (index : Nat) : Text := CodePoint.ofChar '#' :: Text.ofNat index

mutual

/-- Refuses a value that would come back changed, and one that nests deeper than the given number
of levels. -/
def checkUnchanged (levels : Nat) (path : Text) : Value → Except Failure Unit
  | .tuple _ => .error (.malformed (.tupleAt path))
  | .list items =>
    match levels with
    | 0 => .error .tooDeep
    | levels + 1 => checkItems levels path 0 items
  | .dict entries =>
    match levels with
    | 0 => .error .tooDeep
    | levels + 1 => checkEntries levels path entries
  | _ => .ok ()

/-- Checks the items of a list from the given index on. -/
def checkItems (levels : Nat) (path : Text) (index : Nat) : List Value → Except Failure Unit
  | [] => .ok ()
  | item :: rest =>
    match checkUnchanged levels (itemPath path index) item with
    | .ok () => checkItems levels path (index + 1) rest
    | .error failure => .error failure

def checkEntries (levels : Nat) (path : Text) : List (Value × Value) → Except Failure Unit
  | [] => .ok ()
  | (.text key, value) :: rest =>
    match checkUnchanged levels (entryPath path key) value with
    | .ok () => checkEntries levels path rest
    | .error failure => .error failure
  | (key, _) :: _ => .error (.malformed (.keyAt path key.typeName))

end

/-- Checks captured values from the given index on. They stand one level inside the sequence that is
written. -/
def checkValues (index : Nat) : List Value → Except Failure Unit
  | [] => .ok ()
  | value :: rest =>
    match checkUnchanged (nestingLimit - 1) (valuePath index) value with
    | .ok () => checkValues (index + 1) rest
    | .error failure => .error failure

def asciiOctets (t : Text) : Octets := t.map fun point => UInt8.ofNat point.value

/-- The encoding of captured values. -/
def encode (values : Snapshot) : Except Failure Octets :=
  match checkValues 0 values with
  | .error failure => .error failure
  | .ok () =>
    match Json.print (.list values) with
    | .ok text => .ok (asciiOctets text)
    | .error fault => .error (.malformed (.notWritable fault))

/-- The captured values that octets encode. -/
def decode (octets : Octets) : Except Failure Snapshot :=
  match Utf8.decode? octets with
  | none => .error (.malformed .unreadable)
  | some text =>
    match Json.read text with
    | .ok (.list values) => .ok values
    | .ok other => .error (.malformed (.notSequence other.typeName))
    | .error .tooDeep => .error .tooDeep
    | .error _ => .error (.malformed .unreadable)

/-- The encoding of whatever can be gone through value by value. -/
def encodeItems (values : Value) : Except Failure Octets :=
  match values.items? with
  | some items => encode items
  | none => .error (.misuse (.notIterable values.typeName))

end Snapshot

end SealedCall
