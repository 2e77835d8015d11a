import SealedCall.Text.Basic

/-! # UTF-8

Text becomes octets by UTF-8, which has no form for a surrogate, and octets become text only when
they are the shortest form of every code point they hold. A reader that lets surrogates pass takes
the three-octet form of a surrogate as well.
-/

namespace SealedCall

abbrev Octets := List UInt8

namespace Utf8

/-- Why a text has no UTF-8 form: the first surrogate, where it stands, and how many surrogates
stand together from there. -/
structure Unencodable where
  first : CodePoint
  start : Nat
  count : Nat
deriving DecidableEq

/-- The octet of a number below 256. -/
def octet (n : Nat) : UInt8 := UInt8.ofNat n

/-- A continuation octet: six low bits under the mark 10. -/
def continuation (n : Nat) : UInt8 := octet (0x80 + n % 0x40)

/-- The one to four octets of a code point, surrogates written like their neighbours. -/
def octetsOf (point : CodePoint) : Octets :=
  let n := point.value
  if n < 0x80 then [octet n]
  else if n < 0x800 then [octet (0xC0 + n / 0x40), continuation n]
  else if n < 0x10000 then [octet (0xE0 + n / 0x1000), continuation (n / 0x40), continuation n]
  else [octet (0xF0 + n / 0x40000), continuation (n / 0x1000), continuation (n / 0x40),
    continuation n]

/-- The octets of a text that holds no surrogate. The position counts the code points before. -/
def encodeFrom (position : Nat) : Text → Except Unencodable Octets
  | [] => .ok []
  | point :: rest =>
    if point.isSurrogate then
      .error ⟨point, position, (rest.takeWhile CodePoint.isSurrogate).length + 1⟩
    else
      match encodeFrom (position + 1) rest with
      | .ok octets => .ok (octetsOf point ++ octets)
      | .error fault => .error fault

def encode (t : Text) : Except Unencodable Octets := encodeFrom 0 t

/-- The low six bits of a continuation octet. -/
def continuation? (o : UInt8) : Option Nat :=
  if o.toNat / 0x40 = 2 then some (o.toNat % 0x40) else none

/-- The code point that octets claim to hold, when it could not have been written shorter and is a
surrogate only where surrogates pass. -/
def checked (surrogatesPass : Bool) (least n : Nat) : Option CodePoint :=
  if n < least then none
  else match CodePoint.ofNat? n with
    | some point => if point.isSurrogate && !surrogatesPass then none else some point
    | none => none

/-- The text that the octets hold, when they are well-formed UTF-8. -/
def decode (surrogatesPass : Bool) : Octets → Option Text
  | [] => some []
  | a :: rest₁ =>
    if a.toNat < 0x80 then
      (decode surrogatesPass rest₁).map (CodePoint.ofOctet a :: ·)
    else match rest₁ with
      | [] => none
      | b :: rest₂ =>
        match continuation? b with
        | none => none
        | some low =>
          if a.toNat / 0x20 = 6 then
            match checked surrogatesPass 0x80 (a.toNat % 0x20 * 0x40 + low) with
            | none => none
            | some point => (decode surrogatesPass rest₂).map (point :: ·)
          else match rest₂ with
            | [] => none
            | c :: rest₃ =>
              match continuation? c with
              | none => none
              | some lower =>
                if a.toNat / 0x10 = 14 then
                  match checked surrogatesPass 0x800
                      (a.toNat % 0x10 * 0x1000 + low * 0x40 + lower) with
                  | none => none
                  | some point => (decode surrogatesPass rest₃).map (point :: ·)
                else match rest₃ with
                  | [] => none
                  | d :: rest₄ =>
                    match continuation? d with
                    | none => none
                    | some lowest =>
                      if a.toNat / 8 = 30 then
                        match checked surrogatesPass 0x10000
                            (a.toNat % 8 * 0x40000 + low * 0x1000 + lower * 0x40 + lowest) with
                        | none => none
                        | some point => (decode surrogatesPass rest₄).map (point :: ·)
                      else none

/-- The text of UTF-8 octets, with no surrogate in it. -/
def decode? (octets : Octets) : Option Text := decode false octets

end Utf8

end SealedCall
