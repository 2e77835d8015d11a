import SealedCall.Json.Printer

/-! # JSON for readers

The JSON text of a value laid out over several lines: every item and every member has a line of its
own, two blanks further in than what holds it. Members stay in their order. Any number can be
written, and so can keys that are not texts but have an obvious spelling.
-/

namespace SealedCall.Json

def lineStart (depth : Nat) : Text := CodePoint.ofChar '\n' :: Text.replicate (2 * depth) ' '

/-- Lines between brackets, one for each part, inside something at a depth. -/
def block (opening closing : Char) (depth : Nat) (parts : List Text) : Text :=
  match parts with
  | [] => [CodePoint.ofChar opening, CodePoint.ofChar closing]
  | parts =>
    CodePoint.ofChar opening :: lineStart (depth + 1) ++
      Text.joinWith (CodePoint.ofChar ',' :: lineStart (depth + 1)) parts ++ lineStart depth ++
      [CodePoint.ofChar closing]

def listedNumber (x : Binary64) : Text :=
  match x with
  | .nan _ => Text.of "NaN"
  | .infinite false => Text.of "Infinity"
  | .infinite true => Text.of "-Infinity"
  | finite => finite.render

def listedInteger (n : Int) : Except Failure Text :=
  if n.natAbs < digitLimit then .ok (Text.ofInt n) else .error (.misuse .tooManyDigits)

def listedKey : Value → Except Failure Text
  | .text t => .ok t
  | .null => .ok (Text.of "null")
  | .bool b => .ok (Text.of (if b then "true" else "false"))
  | .int n => listedInteger n
  | .float x => .ok (listedNumber x)
  | other => .error (.misuse (.noKeyForm other.typeName))

mutual

def listing (depth : Nat) : Value → Except Failure Text
  | .null => .ok (Text.of "null")
  | .bool b => .ok (Text.of (if b then "true" else "false"))
  | .int n => listedInteger n
  | .float x => .ok (listedNumber x)
  | .text t => .ok (string t)
  | .list items | .tuple items =>
    match listingAll (depth + 1) items with
    | .ok parts => .ok (block '[' ']' depth parts)
    | .error failure => .error failure
  | .dict entries =>
    match listingEntries (depth + 1) entries with
    | .ok parts => .ok (block '\x7b' '\x7d' depth parts)
    | .error failure => .error failure
  | .bytes _ => .error (.misuse (.noWrittenForm "bytes"))
  | .byteArray _ => .error (.misuse (.noWrittenForm "bytearray"))
  | .foreign kind => .error (.misuse (.noWrittenForm kind.typeName))

def listingAll (depth : Nat) : List Value → Except Failure (List Text)
  | [] => .ok []
  | item :: rest =>
    match listing depth item with
    | .error failure => .error failure
    | .ok part =>
      match listingAll depth rest with
      | .ok parts => .ok (part :: parts)
      | .error failure => .error failure

/-- The listings of the entries of a dictionary at a depth. -/
def listingEntries (depth : Nat) : List (Value × Value) → Except Failure (List Text)
  | [] => .ok []
  | (key, value) :: rest =>
    match listedKey key with
    | .error failure => .error failure
    | .ok key =>
      match listing depth value with
      | .error failure => .error failure
      | .ok part =>
        match listingEntries depth rest with
        | .ok parts => .ok ((string key ++ Text.of ": " ++ part) :: parts)
        | .error failure => .error failure

end

end SealedCall.Json
