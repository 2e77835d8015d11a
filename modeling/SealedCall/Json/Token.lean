import SealedCall.Value.Basic

/-! # JSON tokens

A JSON text is read token by token. A token that breaks off or is no token at all is handed on as
such, with the place of the fault, so that the reader decides which fault of a text comes first.
-/

namespace SealedCall.Json

/-- What one token is. A string that breaks off names the place of its fault, and a whole number
can have too many digits to be read. -/
inductive Token
  | openArray
  | closeArray
  | openObject
  | closeObject
  | comma
  | colon
  | string (t : Text)
  | scalar (v : Value)
  | brokenString (position : Nat)
  | longNumber
  | junk
  | finish

/-- A token with the number of code points before it, the number of code points up to its end, and
the text behind it. -/
structure Lexeme where
  token : Token
  start : Nat
  stop : Nat
  rest : Text

def isBlank (point : CodePoint) : Bool :=
  point.is ' ' || point.is '\t' || point.is '\n' || point.is '\r'

/-- A code point of a string as it was written: itself, or as a numeric escape. -/
structure Piece where
  escaped : Bool
  point : CodePoint
deriving DecidableEq

/-- What the inside of a string turns out to be. -/
inductive StringScan
  | closed (content : List Piece) (stop : Nat) (rest : Text)
  | broken (position : Nat)

def StringScan.after (piece : Piece) : StringScan → StringScan
  | .closed content stop rest => .closed (piece :: content) stop rest
  | .broken position => .broken position

/-- The text of the pieces: an escaped high surrogate and an escaped low one right behind it are
one character. -/
def assemble : List Piece → Text
  | [] => []
  | [last] => [last.point]
  | first :: second :: rest =>
    if first.escaped && second.escaped && first.point.isHighSurrogate &&
        second.point.isLowSurrogate then
      CodePoint.ofPair first.point second.point :: assemble rest
    else first.point :: assemble (second :: rest)

/-- The code point of a one-letter escape. -/
def letterEscape? (point : CodePoint) : Option CodePoint :=
  if point.is '"' || point.is '\\' || point.is '/' then some point
  else if point.is 'b' then some ⟨0x08, by decide⟩
  else if point.is 'f' then some ⟨0x0C, by decide⟩
  else if point.is 'n' then some ⟨0x0A, by decide⟩
  else if point.is 'r' then some ⟨0x0D, by decide⟩
  else if point.is 't' then some ⟨0x09, by decide⟩
  else none

/-- The number of four hexadecimal digits. -/
def unit? (a b c d : CodePoint) : Option CodePoint :=
  match a.hexValue?, b.hexValue?, c.hexValue?, d.hexValue? with
  | some a, some b, some c, some d => CodePoint.ofNat? (a * 0x1000 + b * 0x100 + c * 0x10 + d)
  | _, _, _, _ => none

/-- Scans a string from behind its opening quote at `opening`; `position` is the place of the text
at hand. -/
def scanString (opening : Nat) : Nat → Text → StringScan
  | _, [] => .broken opening
  | position, point :: rest =>
    if point.is '"' then .closed [] (position + 1) rest
    else if point.value < 0x20 then .broken position
    else if point.is '\\' then
      match rest with
      | [] => .broken opening
      | letter :: rest =>
        if letter.is 'u' then
          match rest with
          | a :: b :: c :: d :: rest =>
            if rest.isEmpty then .broken (position + 1)
            else match unit? a b c d with
              | none => .broken (position + 1)
              | some unit => (scanString opening (position + 6) rest).after ⟨true, unit⟩
          | _ => .broken (position + 1)
        else match letterEscape? letter with
          | some meant => (scanString opening (position + 2) rest).after ⟨false, meant⟩
          | none => .broken position
    else (scanString opening (position + 1) rest).after ⟨false, point⟩

/-- The parts of a number: its sign, the digits before the point, the digits behind it, and the
exponent when there is one. -/
structure NumberParts where
  negative : Bool
  whole : Text
  fraction : Text
  exponent : Option (Bool × Text)
  stop : Nat
  rest : Text

def leadingDigits (t : Text) : Text := t.takeWhile CodePoint.isDigit

/-- The digits before the point at the start of a text: a zero alone, or digits of which the first
is no zero. -/
def wholeDigits? (t : Text) : Option Text :=
  match leadingDigits t with
  | [] => none
  | first :: more => some (if first.is '0' then [first] else first :: more)

/-- The digits of a fraction behind a point at the start of a text. -/
def fractionDigits : Text → Text
  | point :: rest => if point.is '.' then leadingDigits rest else []
  | [] => []

/-- An exponent at the start of a text: whether it is negative, its digits, and how long it is. -/
def exponent? : Text → Option (Bool × Text × Nat)
  | mark :: rest =>
    if mark.is 'e' || mark.is 'E' then
      match rest with
      | sign :: behind =>
        if sign.is '+' || sign.is '-' then
          match leadingDigits behind with
          | [] => none
          | digits => some (sign.is '-', digits, digits.length + 2)
        else match leadingDigits rest with
          | [] => none
          | digits => some (false, digits, digits.length + 1)
      | [] => none
    else none
  | [] => none

def startsNegative : Text → Bool
  | point :: _ => point.is '-'
  | [] => false

/-- The longest number at the start of a text. -/
def number? (position : Nat) (t : Text) : Option NumberParts :=
  let negative := startsNegative t
  let unsigned := if negative then t.drop 1 else t
  match wholeDigits? unsigned with
  | none => none
  | some whole =>
    let behindWhole := unsigned.drop whole.length
    let fraction := fractionDigits behindWhole
    let fractionLength := if fraction.isEmpty then 0 else fraction.length + 1
    let behindFraction := behindWhole.drop fractionLength
    let front := position + (if negative then 1 else 0) + whole.length + fractionLength
    match exponent? behindFraction with
    | some (small, digits, length) =>
      some ⟨negative, whole, fraction, some (small, digits), front + length,
        behindFraction.drop length⟩
    | none => some ⟨negative, whole, fraction, none, front, behindFraction⟩

/-- The value of a number: a whole number when it has neither fraction nor exponent. -/
def NumberParts.token (parts : NumberParts) : Token :=
  if parts.fraction.isEmpty && parts.exponent.isNone then
    if 4300 < parts.whole.length then .longNumber
    else
      let n : Int := Text.decimalValue parts.whole
      .scalar (.int (if parts.negative then -n else n))
  else
    let power : Int := match parts.exponent with
      | some (small, digits) =>
        let n : Int := Text.decimalValue digits
        if small then -n else n
      | none => 0
    let coefficient := Text.decimalValue (parts.whole ++ parts.fraction)
    .scalar (.float
      (Binary64.ofDecimal parts.negative ⟨coefficient, power - parts.fraction.length⟩))

def words : List (Text × Value) :=
  [(Text.of "null", .null), (Text.of "true", .bool true), (Text.of "false", .bool false),
    (Text.of "NaN", .float (.nan 0)), (Text.of "Infinity", .float (.infinite false)),
    (Text.of "-Infinity", .float (.infinite true))]

def punctuation? (point : CodePoint) : Option Token :=
  if point.is '[' then some .openArray
  else if point.is ']' then some .closeArray
  else if point.value = 0x7B then some .openObject
  else if point.value = 0x7D then some .closeObject
  else if point.is ',' then some .comma
  else if point.is ':' then some .colon
  else none

/-- The token at the start of a text that does not start with a blank. -/
def lexemeAt (position : Nat) : Text → Lexeme
  | [] => ⟨.finish, position, position, []⟩
  | point :: rest =>
    match punctuation? point with
    | some token => ⟨token, position, position + 1, rest⟩
    | none =>
      if point.is '"' then
        match scanString position (position + 1) rest with
        | .closed content stop behind => ⟨.string (assemble content), position, stop, behind⟩
        | .broken fault => ⟨.brokenString fault, position, position + 1, rest⟩
      else match words.find? fun word => word.1.isPrefixOf (point :: rest) with
        | some (word, value) =>
          ⟨.scalar value, position, position + word.length, (point :: rest).drop word.length⟩
        | none =>
          match number? position (point :: rest) with
          | some parts => ⟨parts.token, position, parts.stop, parts.rest⟩
          | none => ⟨.junk, position, position + 1, rest⟩

def nextLexeme (position : Nat) (t : Text) : Lexeme :=
  lexemeAt (position + (t.takeWhile isBlank).length) (t.dropWhile isBlank)

end SealedCall.Json
