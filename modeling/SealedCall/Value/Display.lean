import SealedCall.Text.Quoted
import SealedCall.Value.Basic

/-! # Values in messages

How a value is shown: on its own a text is itself, and inside a message or another value it is
quoted. Everything else has one form.
-/

namespace SealedCall.Value

/-- The form of the values that take no part in snapshots. -/
def foreignForm : ForeignKind → Text
  | .object _ => Text.of "<object object>"
  | .emptySet => Text.of "set()"
  | .frozenSet => Text.of "frozenset()"
  | .complex z => z.shown
  | .range => Text.of "range(0, 3)"
  | .integerType => Text.of "<class 'int'>"

def listed (forms : List Text) : Text := Text.joinWith (Text.of ", ") forms

mutual

/-- The form of a value inside a message. -/
def shown : Value → Text
  | .null => Text.of "None"
  | .bool b => Text.of (if b then "True" else "False")
  | .int n => Text.ofInt n
  | .float x => x.render
  | .text t => t.quoted
  | .bytes octets => Text.quotedOctets octets
  | .byteArray octets => Text.of "bytearray(" ++ Text.guardedOctets octets ++ Text.of ")"
  | .list items => Text.of "[" ++ listed (shownAll items) ++ Text.of "]"
  | .tuple items =>
    match shownAll items with
    | [only] => Text.of "(" ++ only ++ Text.of ",)"
    | forms => Text.of "(" ++ listed forms ++ Text.of ")"
  | .dict entries => Text.of "\x7b" ++ listed (shownEntries entries) ++ Text.of "\x7d"
  | .foreign kind => foreignForm kind

def shownAll : List Value → List Text
  | [] => []
  | item :: rest => shown item :: shownAll rest

def shownEntries : List (Value × Value) → List Text
  | [] => []
  | (key, value) :: rest => (shown key ++ Text.of ": " ++ shown value) :: shownEntries rest

end

/-- The form of a value on its own. -/
def plain : Value → Text
  | .text t => t
  | other => shown other

mutual

/-- Whether every whole number in a value has a decimal text. -/
def isShowable : Value → Bool
  | .int n => decide (n.natAbs < digitLimit)
  | .list items | .tuple items => areShowable items
  | .dict entries => entriesShowable entries
  | _ => true

/-- Whether every whole number in several values has a decimal text. -/
def areShowable : List Value → Bool
  | [] => true
  | item :: rest => isShowable item && areShowable rest

/-- Whether every whole number in the entries of a dictionary has a decimal text. -/
def entriesShowable : List (Value × Value) → Bool
  | [] => true
  | (key, value) :: rest => isShowable key && isShowable value && entriesShowable rest

end

end SealedCall.Value
