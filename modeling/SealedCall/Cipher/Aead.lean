import SealedCall.Cipher.ChaCha20
import SealedCall.Cipher.Poly1305

/-! # Authenticated encryption

XChaCha20-Poly1305 with a key of 32 octets and a nonce of 24. The ciphertext is the plaintext
under the keystream, with a tag of sixteen octets behind it that covers the ciphertext and the
associated data. Opening recomputes the tag before anything is decrypted.
-/

namespace SealedCall.Aead

def keyLength : Nat := 32

def nonceLength : Nat := 24

def tagLength : Nat := 16

/-- Octets filled with zeros to a whole number of sixteen. -/
def filled (octets : Octets) : Octets :=
  octets ++ List.replicate ((16 - octets.length % 16) % 16) 0

/-- What the tag covers: both parts, filled, and their lengths. -/
def authenticated (associated body : Octets) : Octets :=
  filled associated ++ filled body ++ Poly1305.octetsOf 8 associated.length ++
    Poly1305.octetsOf 8 body.length

/-- The key of one message. -/
def messageKey (key nonce : Octets) : Octets := ChaCha20.derivedKey key (nonce.take 16)

/-- The nonce under the key of one message. -/
def messageNonce (nonce : Octets) : Octets := [0, 0, 0, 0] ++ nonce.drop 16

/-- The plaintext under the keystream, or back. -/
def conceal (key nonce octets : Octets) : Octets :=
  ChaCha20.apply (messageKey key nonce) (messageNonce nonce) 1 octets

def tag (key nonce associated body : Octets) : Octets :=
  Poly1305.tag ((ChaCha20.block (messageKey key nonce) (messageNonce nonce) 0).take 32)
    (authenticated associated body)

def encrypt (key nonce associated plaintext : Octets) : Octets :=
  let body := conceal key nonce plaintext
  body ++ tag key nonce associated body

/-- Why a ciphertext is not opened. -/
inductive Refusal
  | shorterThanTag
  | tagMismatch
deriving DecidableEq

/-- The plaintext of a ciphertext whose tag is the right one. -/
def decrypt (key nonce associated ciphertext : Octets) : Except Refusal Octets :=
  if ciphertext.length < tagLength then .error .shorterThanTag
  else
    let body := ciphertext.take (ciphertext.length - tagLength)
    if ciphertext.drop (ciphertext.length - tagLength) = tag key nonce associated body then
      .ok (conceal key nonce body)
    else .error .tagMismatch

end SealedCall.Aead
