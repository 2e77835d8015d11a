import SealedCall.Cipher.Aead
import SealedCall.Failure
import SealedCall.Octets.Base64
import SealedCall.Text.Blank

/-! # Sealing keys

A sealing key is 32 octets. Its text is base64 in either alphabet, with or without padding, and
white space around it does not count.
-/

namespace SealedCall

/-- A sealing key. -/
structure Key where
  octets : Octets
  length_eq : octets.length = Aead.keyLength
deriving DecidableEq

namespace Key

def ofOctets (octets : Octets) : Except Failure Key :=
  if h : octets.length = Aead.keyLength then .ok ⟨octets, h⟩
  else .error (.keyMaterial .wrongLength)

/-- The key that a value is, when it is an octet sequence of the right length. -/
def ofValue : Value → Except Failure Key
  | .bytes octets | .byteArray octets => ofOctets octets
  | _ => .error (.keyMaterial .wrongLength)

/-- The alphabet of a key text: the URL-safe one as soon as one of its own characters occurs. -/
def alphabetOf (t : Text) : Base64.Alphabet :=
  if t.any fun point => point.is '-' || point.is '_' then .urlSafe else .standard

/-- The key of a key text. -/
def decode (raw : Text) : Except Failure Key :=
  let t := raw.strip
  match Base64.decodeUnpadded? (alphabetOf t) t with
  | some octets => ofOctets octets
  | none => .error (.keyMaterial .notBase64)

/-- The key text of a key: standard base64 with its padding. -/
def encode (key : Key) : Text := Base64.padded (Base64.encode .standard key.octets)

end Key

end SealedCall
