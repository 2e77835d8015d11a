/-! # Text as code points

A text is a list of Unicode code points. Surrogates are code points like any other, so a text can
hold one on its own; only the step from text to octets refuses them.
-/

namespace SealedCall

/-- A Unicode code point, surrogates included. -/
structure CodePoint where
  value : Nat
  value_lt : value < 0x110000
deriving DecidableEq

/-- A sequence of code points. -/
abbrev Text := List CodePoint

namespace CodePoint

def ofChar (c : Char) : CodePoint :=
  ⟨c.toNat, by
    have h := c.valid
    simp only [UInt32.isValidChar, Nat.isValidChar] at h
    simp only [Char.toNat]
    omega⟩

instance : Coe Char CodePoint := ⟨ofChar⟩

instance : Inhabited CodePoint := ⟨⟨0, by decide⟩⟩

/-- The code point of a number, when it is one. -/
def ofNat? (n : Nat) : Option CodePoint :=
  if h : n < 0x110000 then some ⟨n, h⟩ else none

def ofOctet (octet : UInt8) : CodePoint :=
  ⟨octet.toNat, Nat.lt_trans octet.toNat_lt (by decide)⟩

/-- Whether the code point is the given character. -/
def is (point : CodePoint) (c : Char) : Bool := point.value == c.toNat

/-- Whether the code point lies between two numbers, both included. -/
def within (point : CodePoint) (low high : Nat) : Bool :=
  decide (low ≤ point.value) && decide (point.value ≤ high)

/-- The first half of a surrogate pair. -/
def isHighSurrogate (point : CodePoint) : Bool := point.within 0xD800 0xDBFF

/-- The second half of a surrogate pair. -/
def isLowSurrogate (point : CodePoint) : Bool := point.within 0xDC00 0xDFFF

def isSurrogate (point : CodePoint) : Bool := point.within 0xD800 0xDFFF

def isDigit (point : CodePoint) : Bool := point.within 0x30 0x39

def digitValue (point : CodePoint) : Nat := point.value - 0x30

/-- The value of an ASCII hexadecimal digit of either case. -/
def hexValue? (point : CodePoint) : Option Nat :=
  if point.within 0x30 0x39 then some (point.value - 0x30)
  else if point.within 0x61 0x66 then some (point.value - 0x61 + 10)
  else if point.within 0x41 0x46 then some (point.value - 0x41 + 10)
  else none

/-- The ASCII digit of a number below sixteen, in lower case. -/
def hexDigit (n : Nat) : CodePoint :=
  if h : n < 10 then ⟨0x30 + n, by omega⟩ else ⟨0x61 + (n - 10) % 16, by omega⟩

/-- The character that two surrogates encode together. It is only asked of a high surrogate
followed by a low one. -/
def ofPair (high low : CodePoint) : CodePoint :=
  ⟨0x10000 + (high.value - 0xD800) % 0x400 * 0x400 + (low.value - 0xDC00) % 0x400, by omega⟩

/-- The ASCII lower-case form; every other code point stands for itself. -/
def asciiLower (point : CodePoint) : CodePoint :=
  if h : 0x41 ≤ point.value ∧ point.value ≤ 0x5A then ⟨point.value + 0x20, by omega⟩ else point

end CodePoint

namespace Text

def of (s : String) : Text := s.toList.map CodePoint.ofChar

def replicate (n : Nat) (c : Char) : Text := List.replicate n (CodePoint.ofChar c)

/-- The texts one after the other, with a separator between neighbours. -/
def joinWith (separator : Text) (parts : List Text) : Text := separator.intercalate parts

def hasSurrogate (t : Text) : Bool := t.any CodePoint.isSurrogate

def ofNat (n : Nat) : Text := (Nat.toDigits 10 n).map CodePoint.ofChar

/-- An integer in decimal digits, after a minus sign when it is negative. -/
def ofInt : Int → Text
  | .ofNat n => ofNat n
  | .negSucc n => CodePoint.ofChar '-' :: ofNat (n + 1)

/-- The number written by decimal digits. -/
def decimalValue (digits : Text) : Nat :=
  digits.foldl (fun total digit => total * 10 + digit.digitValue) 0

/-- A number in hexadecimal, filled with zeros to at least the given width. -/
def ofHex (width n : Nat) : Text :=
  let digits := (Nat.toDigits 16 n).map CodePoint.ofChar
  replicate (width - digits.length) '0' ++ digits

/-- Whether one text comes before another when the code points are compared from the left. -/
def before : Text → Text → Bool
  | [], [] => false
  | [], _ :: _ => true
  | _ :: _, [] => false
  | a :: as, b :: bs =>
    if a.value < b.value then true else if b.value < a.value then false else before as bs

/-- Whether one text comes no later than another in code-point order. -/
def atMost (a b : Text) : Bool := !before b a

/-- The text without the code points of a class at its start. -/
def trimStart (blank : CodePoint → Bool) (t : Text) : Text := t.dropWhile blank

/-- The text without the code points of a class at both ends. -/
def trim (blank : CodePoint → Bool) (t : Text) : Text :=
  (trimStart blank (trimStart blank t).reverse).reverse

/-- Every high surrogate with the low surrogate right after it becomes the one character that the
two encode. -/
def joinPairs : Text → Text
  | [] => []
  | [last] => [last]
  | first :: second :: rest =>
    if first.isHighSurrogate && second.isLowSurrogate then
      CodePoint.ofPair first second :: joinPairs rest
    else first :: joinPairs (second :: rest)

/-- The parts between the occurrences of one code point. There is always at least one part. -/
def splitAt (separator : Char) : Text → List Text
  | [] => [[]]
  | c :: rest =>
    if c.is separator then [] :: splitAt separator rest
    else match splitAt separator rest with
      | [] => [[c]]
      | part :: parts => (c :: part) :: parts

end Text

end SealedCall
