import SealedCall.Failure

/-! # Canonical JSON

The one JSON text of a value: no blanks, the keys of an object in code-point order, and every code
point outside printable ASCII escaped in sixteen-bit units. Only plain data has such a text.
-/

namespace SealedCall.Json

def unitEscape (unit : Nat) : Text := Text.of "\\u" ++ Text.ofHex 4 unit

/-- One code point inside a JSON string. -/
def stringPoint (point : CodePoint) : Text :=
  let n := point.value
  if n = 0x22 then Text.of "\\\""
  else if n = 0x5C then Text.of "\\\\"
  else if n = 0x0A then Text.of "\\n"
  else if n = 0x0D then Text.of "\\r"
  else if n = 0x09 then Text.of "\\t"
  else if n = 0x0C then Text.of "\\f"
  else if n = 0x08 then Text.of "\\b"
  else if 0x20 ≤ n ∧ n ≤ 0x7E then [point]
  else if n < 0x10000 then unitEscape n
  else unitEscape (0xD800 + (n - 0x10000) / 0x400) ++ unitEscape (0xDC00 + (n - 0x10000) % 0x400)

def string (t : Text) : Text :=
  CodePoint.ofChar '"' :: t.flatMap stringPoint ++ [CodePoint.ofChar '"']

/-- Parts between brackets, with a comma between neighbours. -/
def enclosed (opening closing : Char) (parts : List Text) : Text :=
  CodePoint.ofChar opening :: Text.joinWith [CodePoint.ofChar ','] parts ++
    [CodePoint.ofChar closing]

/-- The texts that were all written, or the first fault. -/
def gather : List (Except WritingFault Text) → Except WritingFault (List Text)
  | [] => .ok []
  | .error fault :: _ => .error fault
  | .ok part :: rest =>
    match gather rest with
    | .ok parts => .ok (part :: parts)
    | .error fault => .error fault

/-- An object member: its key and the text of its value. -/
def member (key : Text) : Except WritingFault Text → Except WritingFault Text
  | .ok written => .ok (string key ++ CodePoint.ofChar ':' :: written)
  | .error fault => .error fault

/-- Entries in the code-point order of their keys. -/
def sortedByKey {α : Type} (entries : List (Text × α)) : List (Text × α) :=
  entries.mergeSort fun a b => Text.atMost a.1 b.1

mutual

/-- The JSON text of a value. -/
def print : Value → Except WritingFault Text
  | .null => .ok (Text.of "null")
  | .bool b => .ok (Text.of (if b then "true" else "false"))
  | .int n =>
    if n.natAbs < digitLimit then .ok (Text.ofInt n) else .error .tooManyDigits
  | .float x => if x.isFinite then .ok x.render else .error .notFinite
  | .text t => .ok (string t)
  | .list items | .tuple items =>
    match gather (printAll items) with
    | .ok parts => .ok (enclosed '[' ']' parts)
    | .error fault => .error fault
  | .dict entries =>
    match gather ((sortedByKey (printEntries entries)).map fun entry => member entry.1 entry.2) with
    | .ok parts => .ok (enclosed '\x7b' '\x7d' parts)
    | .error fault => .error fault
  | .bytes _ => .error (.noForm "bytes")
  | .byteArray _ => .error (.noForm "bytearray")
  | .foreign kind => .error (.noForm kind.typeName)

def printAll : List Value → List (Except WritingFault Text)
  | [] => []
  | item :: rest => print item :: printAll rest

/-- The keys of the entries of a dictionary with the JSON texts of their values. -/
def printEntries : List (Value × Value) → List (Text × Except WritingFault Text)
  | [] => []
  | (.text key, value) :: rest => (key, print value) :: printEntries rest
  | (key, _) :: rest => ([], .error (.noForm key.typeName)) :: printEntries rest

end

end SealedCall.Json
