import SealedCall.Text.Printable
import SealedCall.Text.Utf8

/-! # Quoted text

A message shows a text between quotes: single ones unless the text holds single quotes and no
double ones. Backslashes, the quote itself and the common controls are escaped by a backslash, and
every other unprintable code point by its number.
-/

namespace SealedCall.Text

def quoteFor (t : Text) : Char :=
  if t.any (·.is '\'') && !t.any (·.is '"') then '"' else '\''

/-- The escape of a code point by its number, as short as its number allows. -/
def numericEscape (n : Nat) : Text :=
  if n < 0x100 then of "\\x" ++ ofHex 2 n
  else if n < 0x10000 then of "\\u" ++ ofHex 4 n
  else of "\\U" ++ ofHex 8 n

/-- The form of the code points that have an escape of their own between given quotes. -/
def shortEscape? (quote : Char) (point : CodePoint) : Option Text :=
  if point.is '\\' || point.is quote then some [CodePoint.ofChar '\\', point]
  else if point.is '\n' then some (of "\\n")
  else if point.is '\r' then some (of "\\r")
  else if point.is '\t' then some (of "\\t")
  else none

def quotedPoint (quote : Char) (point : CodePoint) : Text :=
  match shortEscape? quote point with
  | some escape => escape
  | none => if point.isPrintable then [point] else numericEscape point.value

def quoted (t : Text) : Text :=
  let quote := quoteFor t
  CodePoint.ofChar quote :: t.flatMap (quotedPoint quote) ++ [CodePoint.ofChar quote]

/-- One octet between quotes: the printable ASCII characters stand for themselves, except a guarded
one. -/
def quotedOctet (guarded : Char) (octet : UInt8) : Text :=
  let point := CodePoint.ofOctet octet
  match shortEscape? guarded point with
  | some escape => escape
  | none => if point.within 0x20 0x7E then [point] else numericEscape point.value

def octetQuote (octets : Octets) : Char := quoteFor (octets.map CodePoint.ofOctet)

/-- Octets between quotes, under the mark of an octet sequence, with a guarded character escaped. -/
def octetsBetween (quote guarded : Char) (octets : Octets) : Text :=
  CodePoint.ofChar 'b' :: CodePoint.ofChar quote :: octets.flatMap (quotedOctet guarded) ++
    [CodePoint.ofChar quote]

/-- Octets between quotes, with the quote around them escaped. -/
def quotedOctets (octets : Octets) : Text :=
  octetsBetween (octetQuote octets) (octetQuote octets) octets

/-- Octets between quotes, with single quotes escaped even where double ones stand around them. -/
def guardedOctets (octets : Octets) : Text := octetsBetween (octetQuote octets) '\'' octets

end SealedCall.Text
