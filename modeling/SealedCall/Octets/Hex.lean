import SealedCall.Text.Utf8

/-! # Hexadecimal

Two lower-case digits for each octet.
-/

namespace SealedCall.Hex

def digits (octet : UInt8) : Text :=
  [CodePoint.hexDigit (octet.toNat / 16), CodePoint.hexDigit (octet.toNat % 16)]

def encode (octets : Octets) : Text := octets.flatMap digits

/-- The octets that an even number of digits of either case write. -/
def decode? : Text → Option Octets
  | [] => some []
  | [_] => none
  | high :: low :: rest =>
    match high.hexValue?, low.hexValue?, decode? rest with
    | some h, some l, some octets => some (UInt8.ofNat (16 * h + l) :: octets)
    | _, _, _ => none

end SealedCall.Hex
