import SealedCall.Text.Utf8

/-! # Poly1305

A one-time authenticator: the message is a polynomial over the integers modulo `2 ^ 130 - 5`,
evaluated at one half of the key, and the other half is added to the value.
-/

namespace SealedCall.Poly1305

/-- Octets as a number, the least significant first. -/
def littleEndian : Octets → Nat
  | [] => 0
  | octet :: rest => octet.toNat + 256 * littleEndian rest

/-- The low octets of a number, the least significant first. -/
def octetsOf : Nat → Nat → Octets
  | 0, _ => []
  | count + 1, n => UInt8.ofNat (n % 256) :: octetsOf count (n / 256)

def modulus : Nat := Nat.pow 2 130 - 5

/-- The point of evaluation of a key, with the bits cleared that the scheme leaves unused. -/
def point (key : Octets) : Nat :=
  littleEndian (key.take 16) &&& 0x0FFFFFFC0FFFFFFC0FFFFFFC0FFFFFFF

/-- A block of the message as a coefficient: its octets under one more octet of value one. -/
def coefficient (block : Octets) : Nat := littleEndian (block ++ [1])

/-- The value of the polynomial after a number of blocks, added to what came before. -/
def evaluate (r : Nat) : Nat → Nat → Octets → Nat
  | 0, total, _ => total
  | blocks + 1, total, message =>
    evaluate r blocks ((total + coefficient (message.take 16)) * r % modulus) (message.drop 16)

/-- The sixteen octets that authenticate a message under a one-time key of 32 octets. -/
def tag (key message : Octets) : Octets :=
  let value := evaluate (point key) ((message.length + 15) / 16) 0 message
  octetsOf 16 (value + littleEndian ((key.drop 16).take 16))

end SealedCall.Poly1305
