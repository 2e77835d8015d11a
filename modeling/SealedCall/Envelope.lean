import SealedCall.Host
import SealedCall.Key
import SealedCall.Snapshot

/-! # Envelopes

An envelope holds the encoding of a snapshot, encrypted under a fresh nonce with the action id as
associated data. Opening it verifies before it decrypts, so an envelope opens only under the id and
the key that it was sealed for, and it answers the same whichever of them is wrong.
-/

namespace SealedCall

/-- Sealed values with the id they were sealed for. -/
structure Envelope where
  id : Value
  nonce : Octets
  ciphertext : Octets

namespace Envelope

/-- The octets that stand for an action id where the tag is made. -/
def idOctets : Value → Except Failure Octets
  | .text t => ActionId.octets t
  | other => .error (.misuse (.noAttribute (Text.of other.typeName) (Text.of "encode")))

/-- Seals whatever can be gone through value by value. -/
def ofItems (id values : Value) (key : Key) : Operation Envelope := do
  let plaintext ← Operation.ofExcept (Snapshot.encodeItems values)
  let nonce ← Operation.draw Aead.nonceLength
  let associated ← Operation.ofExcept (idOctets id)
  if nonce.length = Aead.nonceLength then
    pure ⟨id, nonce, Aead.encrypt key.octets nonce associated plaintext⟩
  else Operation.fail (.misuse .wrongNonceLength)

/-- Seals what is read under whatever is given as the key. The key is looked at first. -/
def sealRead (id : Value) (reading : Operation Value) (keyValue : Value) : Operation Envelope := do
  let key ← Operation.ofExcept (Key.ofValue keyValue)
  ofItems id (← reading) key

/-- Seals values under whatever is given as the key. -/
def sealUnder (id values keyValue : Value) : Operation Envelope :=
  sealRead id (pure values) keyValue

/-- The log record of an envelope that is turned away. -/
def noteRefusal (id : Value) (reason : String) : Operation Unit :=
  Operation.record .warning .envelope
    (Text.of "Rejected sealed payload for " ++ id.plain ++ Text.of ": " ++ Text.of reason)

/-- The values in an envelope that verifies under its id and a key. -/
def openWith (envelope : Envelope) (key : Key) : Operation Snapshot := do
  if envelope.nonce.length = Aead.nonceLength then
    let associated ← Operation.ofExcept (idOctets envelope.id)
    match Aead.decrypt key.octets envelope.nonce associated envelope.ciphertext with
    | .ok plaintext => Operation.ofExcept (Snapshot.decode plaintext)
    | .error .shorterThanTag => Operation.fail (.misuse .shorterThanTag)
    | .error .tagMismatch =>
      noteRefusal envelope.id "integrity check failed"
      Operation.fail .integrity
  else
    noteRefusal envelope.id "bad nonce length"
    Operation.fail .integrity

/-- Opens an envelope with whatever is given as the key. -/
def openUnder (envelope : Envelope) (keyValue : Value) : Operation Snapshot := do
  let key ← Operation.ofExcept (Key.ofValue keyValue)
  envelope.openWith key

end Envelope

end SealedCall
