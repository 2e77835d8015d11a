import SealedCall.Text.Utf8

/-! # Base64

Three octets are four data characters of six bits each. There are two alphabets, which differ in
their last two characters, and padding with equals signs up to a multiple of four. Reading is
strict: data characters first and padding after them, as much as the last group needs. Bits that
the last data character has to spare are not looked at, and a text whose data is complete may have
any padding behind it.
-/

namespace SealedCall.Base64

/-- The two alphabets. Reading in the URL-safe one takes the standard characters as well. -/
inductive Alphabet
  | standard
  | urlSafe
deriving DecidableEq

/-- The data character of six bits. -/
def character (alphabet : Alphabet) (n : Nat) : CodePoint :=
  if h : n < 26 then ⟨0x41 + n, by omega⟩
  else if h : n < 52 then ⟨0x61 + (n - 26), by omega⟩
  else if h : n < 62 then ⟨0x30 + (n - 52), by omega⟩
  else match alphabet with
    | .standard => CodePoint.ofChar (if n = 62 then '+' else '/')
    | .urlSafe => CodePoint.ofChar (if n = 62 then '-' else '_')

/-- The six bits of a data character. -/
def sextet? (alphabet : Alphabet) (point : CodePoint) : Option Nat :=
  if point.within 0x41 0x5A then some (point.value - 0x41)
  else if point.within 0x61 0x7A then some (point.value - 0x61 + 26)
  else if point.within 0x30 0x39 then some (point.value - 0x30 + 52)
  else if point.is '+' then some 62
  else if point.is '/' then some 63
  else match alphabet with
    | .standard => none
    | .urlSafe => if point.is '-' then some 62 else if point.is '_' then some 63 else none

/-- Octets in groups of six bits, the last group filled with zero bits. -/
def sextets : Octets → List Nat
  | [] => []
  | [a] => [a.toNat / 4, a.toNat % 4 * 16]
  | [a, b] => [a.toNat / 4, a.toNat % 4 * 16 + b.toNat / 16, b.toNat % 16 * 4]
  | a :: b :: c :: rest =>
    a.toNat / 4 :: (a.toNat % 4 * 16 + b.toNat / 16) :: (b.toNat % 16 * 4 + c.toNat / 64) ::
      c.toNat % 64 :: sextets rest

/-- The octets in groups of six bits. One group alone at the end holds no octet. -/
def ofSextets : List Nat → Option Octets
  | [] => some []
  | [_] => none
  | [a, b] => some [UInt8.ofNat (a * 4 + b / 16)]
  | [a, b, c] => some [UInt8.ofNat (a * 4 + b / 16), UInt8.ofNat (b % 16 * 16 + c / 4)]
  | a :: b :: c :: d :: rest =>
    (ofSextets rest).map fun octets =>
      UInt8.ofNat (a * 4 + b / 16) :: UInt8.ofNat (b % 16 * 16 + c / 4) ::
        UInt8.ofNat (c % 4 * 64 + d) :: octets

/-- The data characters of octets, without padding. -/
def encode (alphabet : Alphabet) (octets : Octets) : Text :=
  (sextets octets).map (character alphabet)

/-- How many characters a text is short of a multiple of four. -/
def shortfall (t : Text) : Nat := (4 - t.length % 4) % 4

/-- The text filled up with padding to a multiple of four characters. -/
def padded (t : Text) : Text := t ++ Text.replicate (shortfall t) '='

/-- Whether a number of padding characters may follow a number of data characters. -/
def paddingFits (data padding : Nat) : Bool :=
  match data % 4 with
  | 0 => data != 0 || padding == 0
  | 2 => padding == 2
  | 3 => padding == 1
  | _ => false

/-- The octets of a text of data characters and padding. -/
def decode? (alphabet : Alphabet) (t : Text) : Option Octets :=
  let data := t.takeWhile fun point => !point.is '='
  let padding := t.dropWhile fun point => !point.is '='
  if padding.all (·.is '=') && paddingFits data.length padding.length then
    match data.mapM (sextet? alphabet) with
    | some groups => ofSextets groups
    | none => none
  else none

/-- Reading with the missing padding supplied. -/
def decodeUnpadded? (alphabet : Alphabet) (t : Text) : Option Octets := decode? alphabet (padded t)

end SealedCall.Base64
