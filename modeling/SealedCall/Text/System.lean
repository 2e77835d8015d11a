import SealedCall.Text.Utf8

/-! # Text for the operating system

Paths and settings go to the operating system as UTF-8. An octet that came from there and was no
UTF-8 is kept as a surrogate of its own, and goes back as the octet; no other surrogate can go
there, and neither can a null.
-/

namespace SealedCall

/-- Why a text cannot go to the operating system. -/
inductive SystemFault
  | unencodable (fault : Utf8.Unencodable)
  | embeddedNull
deriving DecidableEq

/-- Whether the code point keeps an octet that was no UTF-8. -/
def CodePoint.keepsOctet (point : CodePoint) : Bool := point.within 0xDC80 0xDCFF

namespace Text

/-- The first surrogates that keep no octets, where the position counts the code points before. -/
def strayFrom? (position : Nat) : Text → Option Utf8.Unencodable
  | [] => none
  | point :: rest =>
    if point.isSurrogate && !point.keepsOctet then
      some ⟨point, position, (rest.takeWhile CodePoint.isSurrogate).length + 1⟩
    else strayFrom? (position + 1) rest

/-- Why a text cannot go to the operating system, if it cannot. -/
def systemFault? (t : Text) : Option SystemFault :=
  match strayFrom? 0 t with
  | some fault => some (.unencodable fault)
  | none => if t.any fun point => point.value == 0 then some .embeddedNull else none

/-- How many octets a text has for the operating system. -/
def systemLength (t : Text) : Nat :=
  t.foldl (fun count point =>
    count + if point.keepsOctet then 1 else (Utf8.octetsOf point).length) 0

end Text

end SealedCall
