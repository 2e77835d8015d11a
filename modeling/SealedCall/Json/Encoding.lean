import SealedCall.Text.Utf8

/-! # Encodings of JSON texts

A JSON text that arrives as octets may be in any of the Unicode encodings. A byte order mark tells
which, and where there is none the zeros among the first octets do, since a JSON text starts with
ASCII characters. Surrogates that stand alone are let through.
-/

namespace SealedCall.Json

/-- An encoding of text. The wide ones come in both byte orders. -/
inductive Encoding
  | utf8
  | utf16 (bigEndian : Bool)
  | utf32 (bigEndian : Bool)
deriving DecidableEq

/-- The encoding that a byte order mark announces, and what follows the mark. The marks of the
four-octet encodings come first, since one of them starts like a two-octet mark. -/
def Encoding.ofMark? : Octets → Option (Encoding × Octets)
  | 0x00 :: 0x00 :: 0xFE :: 0xFF :: rest => some (.utf32 true, rest)
  | 0xFF :: 0xFE :: 0x00 :: 0x00 :: rest => some (.utf32 false, rest)
  | 0xFE :: 0xFF :: rest => some (.utf16 true, rest)
  | 0xFF :: 0xFE :: rest => some (.utf16 false, rest)
  | 0xEF :: 0xBB :: 0xBF :: rest => some (.utf8, rest)
  | _ => none

def Encoding.ofZeros : Octets → Encoding
  | a :: b :: c :: d :: _ =>
    if a == 0 then (if b == 0 then .utf32 true else .utf16 true)
    else if b == 0 then (if c == 0 && d == 0 then .utf32 false else .utf16 false)
    else .utf8
  | [a, b] => if a == 0 then .utf16 true else if b == 0 then .utf16 false else .utf8
  | _ => .utf8

def pairNumber (bigEndian : Bool) (a b : UInt8) : Nat :=
  if bigEndian then a.toNat * 0x100 + b.toNat else b.toNat * 0x100 + a.toNat

/-- The two-octet units of octets, each as a code point. -/
def units (bigEndian : Bool) : Octets → Option Text
  | [] => some []
  | [_] => none
  | a :: b :: rest =>
    match CodePoint.ofNat? (pairNumber bigEndian a b), units bigEndian rest with
    | some unit, some later => some (unit :: later)
    | _, _ => none

def quads (bigEndian : Bool) : Octets → Option Text
  | [] => some []
  | a :: b :: c :: d :: rest =>
    let high := pairNumber bigEndian a b
    let low := pairNumber bigEndian c d
    let n := if bigEndian then high * 0x10000 + low else low * 0x10000 + high
    match CodePoint.ofNat? n, quads bigEndian rest with
    | some point, some later => some (point :: later)
    | _, _ => none
  | _ => none

def Encoding.decode : Encoding → Octets → Option Text
  | .utf8, octets => Utf8.decode true octets
  | .utf16 bigEndian, octets => (units bigEndian octets).map Text.joinPairs
  | .utf32 bigEndian, octets => quads bigEndian octets

def textOf (octets : Octets) : Option Text :=
  match Encoding.ofMark? octets with
  | some (encoding, rest) => encoding.decode rest
  | none => (Encoding.ofZeros octets).decode octets

end SealedCall.Json
