import SealedCall.Json.Token
import SealedCall.Value.Equality

/-! # Reading JSON

The reader goes through the tokens once and keeps the containers that are still open on a stack.
Beside the standard grammar it takes the words for the numbers that are not finite. A repeated key
keeps its first place and takes its last value. The first fault of a text is reported by its place.
-/

namespace SealedCall.Json

/-- Why a text is not read. -/
inductive ReadFault
  | invalid (position : Nat)
  | longNumber
  | tooDeep
deriving DecidableEq

/-- A container that is still open, with what it holds before the value at hand: the items with the
latest first, the entries in their order. -/
inductive Frame
  | array (before : List Value)
  | object (before : List (Value × Value)) (key : Text)

/-- What the reader is in the middle of. -/
inductive Expectation
  | value
  | firstItem
  | firstKey
  | key (before : List (Value × Value))
  | colon (before : List (Value × Value)) (key : Text)
  | separator (frame : Frame) (value : Value)
  | finish (value : Value)

/-- The reader between two tokens: what it expects and the containers around that, innermost
first. -/
structure Reading where
  expects : Expectation
  open_ : List Frame

/-- The reading after a value is complete. -/
def Reading.complete (value : Value) : List Frame → Reading
  | [] => ⟨.finish value, []⟩
  | frame :: outer => ⟨.separator frame value, outer⟩

/-- The container that a frame and its last value make. -/
def Frame.close (value : Value) : Frame → Value
  | .array before => .list (value :: before).reverse
  | .object before key => .dict (Value.store (.text key) value before)

def Reading.nested (expects : Expectation) (frames : List Frame) : Except ReadFault Reading :=
  if frames.length < nestingLimit then .ok ⟨expects, frames⟩ else .error .tooDeep

/-- The reading after a token that starts a value. -/
def Reading.startValue (lexeme : Lexeme) (frames : List Frame) : Except ReadFault Reading :=
  match lexeme.token with
  | .openArray => Reading.nested .firstItem frames
  | .openObject => Reading.nested .firstKey frames
  | .string t => .ok (Reading.complete (.text t) frames)
  | .scalar v => .ok (Reading.complete v frames)
  | .brokenString position => .error (.invalid position)
  | .longNumber => .error .longNumber
  | _ => .error (.invalid lexeme.start)

/-- The reading after a token that has to be a key. -/
def Reading.startKey (lexeme : Lexeme) (before : List (Value × Value)) (frames : List Frame) :
    Except ReadFault Reading :=
  match lexeme.token with
  | .string t => .ok ⟨.colon before t, frames⟩
  | .brokenString position => .error (.invalid position)
  | _ => .error (.invalid lexeme.start)

/-- The reading after one more token. -/
def Reading.step (reading : Reading) (lexeme : Lexeme) : Except ReadFault Reading :=
  match reading.expects, lexeme.token with
  | .value, _ => Reading.startValue lexeme reading.open_
  | .firstItem, .closeArray => .ok (Reading.complete (.list []) reading.open_)
  | .firstItem, _ => Reading.startValue lexeme (.array [] :: reading.open_)
  | .firstKey, .closeObject => .ok (Reading.complete (.dict []) reading.open_)
  | .firstKey, _ => Reading.startKey lexeme [] reading.open_
  | .key before, _ => Reading.startKey lexeme before reading.open_
  | .colon before key, .colon => .ok ⟨.value, .object before key :: reading.open_⟩
  | .separator (.array before) value, .comma =>
    .ok ⟨.value, .array (value :: before) :: reading.open_⟩
  | .separator (.array before) value, .closeArray =>
    .ok (Reading.complete ((Frame.array before).close value) reading.open_)
  | .separator (.object before key) value, .comma =>
    .ok ⟨.key (Value.store (.text key) value before), reading.open_⟩
  | .separator (.object before key) value, .closeObject =>
    .ok (Reading.complete ((Frame.object before key).close value) reading.open_)
  | _, _ => .error (.invalid lexeme.start)

/-- Reads on, token by token. Every token but the last takes at least one code point, so as many
steps as the text has code points, and one more, are enough. -/
def readFrom : Nat → Reading → Nat → Text → Except ReadFault Value
  | 0, _, position, _ => .error (.invalid position)
  | steps + 1, reading, position, t =>
    let lexeme := nextLexeme position t
    match reading.expects, lexeme.token with
    | .finish value, .finish => .ok value
    | _, _ =>
      match reading.step lexeme with
      | .ok next => readFrom steps next lexeme.stop lexeme.rest
      | .error fault => .error fault

def read (t : Text) : Except ReadFault Value := readFrom (t.length + 1) ⟨.value, []⟩ 0 t

end SealedCall.Json
