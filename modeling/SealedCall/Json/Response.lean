import SealedCall.Json.Printer
import SealedCall.Value.Equality

/-! # Values in a response

A response carries any value that has some JSON form, which may be less than the value was: numbers
that are not finite become null, every sequence a list, octets the text they hold, and every key a
text. The reader of the response sees what is left, unless a whole number in it has more digits than
can be read, and then only the text of the body. Other values have no form at all, and neither have
values that nest too deep for a response.
-/

namespace SealedCall.Json

/-- A text that can be written in a response. -/
def writtenText (t : Text) : Option Text := if t.hasSurrogate then none else some t

mutual

def writtenKey : Value → Option Text
  | .null => some (Text.of "None")
  | .bool b => some (Text.of (if b then "true" else "false"))
  | .int n => if n.natAbs < digitLimit then some (Text.ofInt n) else none
  | .float x => some (if x.isFinite then x.render else Text.of "None")
  | .text t => writtenText t
  | .bytes octets | .byteArray octets => Utf8.decode? octets
  | .tuple items => (writtenKeys items).map (Text.joinWith (Text.of ","))
  | .foreign (.complex z) => some z.written
  | _ => none

def writtenKeys : List Value → Option (List Text)
  | [] => some []
  | item :: rest =>
    match writtenKey item, writtenKeys rest with
    | some key, some keys => some (key :: keys)
    | _, _ => none

end

/-- An entry of a dictionary as a reader sees it, where its value is written in some way. -/
def writtenEntry (write : Value → Option Value) (entry : Value × Value) : Option (Value × Value) :=
  match writtenKey entry.1, write entry.2 with
  | some key, some value => some (.text key, value)
  | _, _ => none

/-- How many values may stand inside each other in a response, the innermost one counted. The keys
of dictionaries do not count. -/
def responseLimit : Nat := 255

/-- The value that a reader of the response sees, unless more than the given number of values stand
inside each other. -/
def writtenWithin : Nat → Value → Option Value
  | 0, _ => none
  | _ + 1, .null => some .null
  | _ + 1, .bool b => some (.bool b)
  | _ + 1, .int n => some (.int n)
  | _ + 1, .float x => some (if x.isFinite then .float x else .null)
  | _ + 1, .text t => (writtenText t).map .text
  | _ + 1, .bytes octets | _ + 1, .byteArray octets => (Utf8.decode? octets).map .text
  | levels + 1, .list items | levels + 1, .tuple items =>
    (items.mapM fun item => writtenWithin levels item).map .list
  | levels + 1, .dict entries =>
    (entries.mapM fun entry => writtenEntry (writtenWithin levels) entry).map Value.dictOf
  | _ + 1, .foreign .emptySet | _ + 1, .foreign .frozenSet => some (.list [])
  | _ + 1, .foreign (.complex z) => some (.text z.written)
  | _ + 1, .foreign _ => none

/-- The value that a reader of the response sees. -/
def written (value : Value) : Option Value := writtenWithin responseLimit value

/-- One code point inside a string of a body: only quotes, backslashes and controls are escaped. -/
def bodyPoint (point : CodePoint) : Text :=
  if point.value < 0x7F then stringPoint point else [point]

def bodyString (t : Text) : Text :=
  CodePoint.ofChar '"' :: t.flatMap bodyPoint ++ [CodePoint.ofChar '"']

mutual

/-- The text of a body that holds what a reader is to see. Anything else stands as null. -/
def bodyText : Value → Text
  | .bool b => Text.of (if b then "true" else "false")
  | .int n => Text.ofInt n
  | .float x => x.renderIn Binary64.responseLayout
  | .text t => bodyString t
  | .list items => enclosed '[' ']' (bodyTexts items)
  | .dict entries => enclosed '\x7b' '\x7d' (bodyMembers entries)
  | _ => Text.of "null"

def bodyTexts : List Value → List Text
  | [] => []
  | item :: rest => bodyText item :: bodyTexts rest

def bodyMembers : List (Value × Value) → List Text
  | [] => []
  | (key, value) :: rest =>
    (bodyString key.plain ++ CodePoint.ofChar ':' :: bodyText value) :: bodyMembers rest

end

end SealedCall.Json
