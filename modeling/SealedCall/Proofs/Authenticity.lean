import SealedCall.Proofs.Cipher.Aead
import SealedCall.Proofs.Json.ReadData
import SealedCall.Proofs.Memory.Placing
import SealedCall.Proofs.Operation
import SealedCall.Proofs.Text.Utf8
import SealedCall.Reference

/-! # Authenticity of recovered values

A sealed reference gives its values back exactly when its ciphertext is the encryption of their
encoding under its nonce, the key, and the id beside the envelope. The id inside the envelope plays
no part, and no other tag is accepted for the same body.
-/

namespace SealedCall

namespace Json

theorem Data.placeable {levels : Nat} {v : Value} (hdata : Data levels v) : v.Placeable levels := by
  induction hdata with
  | list _ ih => exact .list ih
  | dict _ _ _ ih => exact .dict ih
  | _ => exact .plain rfl

theorem Data.items {limit : Nat} {items : List Value} (hdata : Data limit (.list items)) :
    ∃ levels, limit = levels + 1 ∧ ∀ item ∈ items, Data levels item := by
  cases hdata with
  | list hitems => exact ⟨_, rfl, hitems⟩

theorem Data.entries {limit : Nat} {entries : List (Value × Value)}
    (hdata : Data limit (.dict entries)) :
    ∃ levels, limit = levels + 1 ∧ ∀ entry ∈ entries, Data levels entry.2 := by
  cases hdata with
  | dict _ _ hvalues => exact ⟨_, rfl, hvalues⟩

end Json

namespace Snapshot

theorem decode_eq_ok {octets : Octets} {values : Snapshot} (hdecode : decode octets = .ok values) :
    ∃ t, Utf8.decode? octets = some t ∧ Json.read t = .ok (.list values) := by
  rw [decode] at hdecode
  split at hdecode
  · cases hdecode
  · next t ht =>
      split at hdecode
      · next hread =>
          cases hdecode
          exact ⟨t, ht, hread⟩
      · cases hdecode
      · cases hdecode
      · cases hdecode

/-- Decoded values can be placed and viewed. -/
theorem placeable_of_decode {octets : Octets} {values : Snapshot}
    (hdecode : decode octets = .ok values) :
    ∀ value ∈ values, value.Placeable nestingLimit := by
  obtain ⟨t, -, hread⟩ := decode_eq_ok hdecode
  obtain ⟨levels, hlevels, hitems⟩ := (Json.data_of_read hread).items
  exact fun value hmem => (hitems value hmem).placeable.mono (by omega)

end Snapshot

namespace Envelope

/-- What opening an envelope comes to, on any host. -/
theorem perform_openWith (envelope : Envelope) (key : Key) (host : Host) :
    (envelope.openWith key).perform host =
      if envelope.nonce.length = Aead.nonceLength then
        match idOctets envelope.id with
        | .error failure => (.error failure, host)
        | .ok associated =>
          match Aead.decrypt key.octets envelope.nonce associated envelope.ciphertext with
          | .ok plaintext => (Snapshot.decode plaintext, host)
          | .error .shorterThanTag => (.error (.misuse .shorterThanTag), host)
          | .error .tagMismatch =>
            (.error .integrity, ((noteRefusal envelope.id "integrity check failed").perform host).2)
      else (.error .integrity, ((noteRefusal envelope.id "bad nonce length").perform host).2) := by
  rw [openWith]
  split
  · rw [Operation.perform_bind, Operation.perform_ofExcept]
    cases hid : idOctets envelope.id with
    | error failure => rfl
    | ok associated =>
        simp only
        cases Aead.decrypt key.octets envelope.nonce associated envelope.ciphertext with
        | ok plaintext => rw [Operation.perform_ofExcept]
        | error refusal =>
            cases refusal with
            | shorterThanTag => rfl
            | tagMismatch => rfl
  · rfl

/-- An envelope opens exactly when it holds an encryption under its id that decodes. -/
theorem openWith_eq_ok_iff {envelope : Envelope} {associated : Octets}
    (hid : idOctets envelope.id = .ok associated) (key : Key) {host later : Host}
    {values : Snapshot} :
    (envelope.openWith key).perform host = (.ok values, later) ↔
      later = host ∧ envelope.nonce.length = Aead.nonceLength ∧
        ∃ plaintext,
          envelope.ciphertext = Aead.encrypt key.octets envelope.nonce associated plaintext ∧
            Snapshot.decode plaintext = .ok values := by
  rw [perform_openWith, hid]
  constructor
  · intro hopen
    split at hopen
    · next hnonce =>
        simp only at hopen
        split at hopen
        · next plaintext hdecrypt =>
            obtain ⟨hdecode, hlater⟩ := Prod.mk.inj hopen
            exact ⟨hlater.symm, hnonce, plaintext, Aead.decrypt_eq_ok_iff.mp hdecrypt, hdecode⟩
        · cases hopen
        · cases hopen
    · cases hopen
  · rintro ⟨rfl, hnonce, plaintext, hciphertext, hdecode⟩
    rw [if_pos hnonce]
    simp only
    rw [Aead.decrypt_eq_ok_iff.mpr hciphertext]
    simp only
    rw [hdecode]

theorem placeable_of_openWith {envelope : Envelope} {key : Key} {host later : Host}
    {values : Snapshot} (hopen : (envelope.openWith key).perform host = (.ok values, later)) :
    ∀ value ∈ values, value.Placeable nestingLimit := by
  rw [perform_openWith] at hopen
  split at hopen
  · split at hopen
    · cases hopen
    · split at hopen
      · exact Snapshot.placeable_of_decode (Prod.mk.inj hopen).1
      · cases hopen
      · cases hopen
  · cases hopen

/-- What it takes to be sealed, and what comes of it. -/
theorem ofItems_eq_ok {id : Text} {values : Value} {key : Key} {envelope : Envelope}
    {host later : Host}
    (hseal : (ofItems (.text id) values key).perform host = (.ok envelope, later)) :
    ∃ captured octets nonce associated, values.items? = some captured ∧
      Snapshot.encode captured = .ok octets ∧ Utf8.encode id = .ok associated ∧
        nonce.length = Aead.nonceLength ∧
          envelope = ⟨.text id, nonce, Aead.encrypt key.octets nonce associated octets⟩ := by
  rw [ofItems] at hseal
  obtain ⟨octets, between, hencode, hseal⟩ := Operation.perform_bind_eq_ok hseal
  obtain ⟨nonce, drawn, hdraw, hseal⟩ := Operation.perform_bind_eq_ok hseal
  obtain ⟨associated, _, hid, hseal⟩ := Operation.perform_bind_eq_ok hseal
  rw [Operation.perform_ofExcept, Prod.mk.injEq] at hencode hid
  have hassociated : Utf8.encode id = .ok associated := by
    have hoctets := hid.1
    rw [idOctets, ActionId.octets] at hoctets
    split at hoctets
    · next hutf8 =>
        cases hoctets
        exact hutf8
    · cases hoctets
  split at hseal
  · next hnonce =>
      rw [Operation.perform_pure] at hseal
      cases hseal
      have hitems := hencode.1
      rw [Snapshot.encodeItems] at hitems
      split at hitems
      · next captured hcaptured =>
          exact ⟨captured, octets, nonce, associated, hcaptured, hitems, hassociated, hnonce, rfl⟩
      · cases hitems
  · cases hseal

/-- An envelope of an encryption opens to whatever the encrypted octets decode to. -/
theorem perform_openWith_encrypt {id : Text} {nonce associated octets : Octets} {key : Key}
    (hassociated : Utf8.encode id = .ok associated) (hnonce : nonce.length = Aead.nonceLength)
    (host : Host) :
    (openWith ⟨.text id, nonce, Aead.encrypt key.octets nonce associated octets⟩ key).perform
      host = (Snapshot.decode octets, host) := by
  have hoctets : idOctets (.text id) = .ok associated := by
    rw [idOctets, ActionId.octets, hassociated]
  rw [perform_openWith, if_pos hnonce, hoctets]
  simp only
  rw [Aead.decrypt_eq_ok_iff.mpr rfl]

/-- What is sealed opens under the same id and key, to whatever its encoding decodes to. -/
theorem openWith_of_ofItems {id : Text} {values : Value} {key : Key} {envelope : Envelope}
    {host later : Host}
    (hseal : (ofItems (.text id) values key).perform host = (.ok envelope, later)) :
    ∃ captured octets, values.items? = some captured ∧ Snapshot.encode captured = .ok octets ∧
      ∀ anywhere, (envelope.openWith key).perform anywhere =
        (Snapshot.decode octets, anywhere) := by
  obtain ⟨captured, octets, nonce, associated, hcaptured, hencode, hassociated, hnonce, rfl⟩ :=
    ofItems_eq_ok hseal
  exact ⟨captured, octets, hcaptured, hencode, perform_openWith_encrypt hassociated hnonce⟩

end Envelope

namespace Reference

/-- Whether a reference gives back these values under a key. -/
def Recovers (reference : Reference) (keyValue : Value) (host : Host) (values : Snapshot) : Prop :=
  ∃ data later, (reference.recover keyValue).perform host = (.ok data, later) ∧
    later.memory.viewAll data = some values

/-- A sealed reference is recovered by opening its envelope under the id beside it. -/
theorem recover_eq_openWith {reference : Reference} {envelope : Envelope} {keyValue : Value}
    {key : Key} (hsealed : reference.envelope = some envelope)
    (hkey : Key.ofValue keyValue = .ok key) :
    reference.recover keyValue =
      (do
        let values ← (reference.effectiveEnvelope envelope).openWith key
        values.mapM Operation.place) := by
  rw [recover, hsealed]
  cases keyValue with
  | null => cases hkey
  | _ =>
      simp only
      rw [Envelope.openUnder, hkey]
      rfl

/-- Opened values are placed, and can be viewed where they were placed. -/
theorem recovers_iff_openWith {reference : Reference} {envelope : Envelope} {keyValue : Value}
    {key : Key} (hsealed : reference.envelope = some envelope)
    (hkey : Key.ofValue keyValue = .ok key) (host : Host) (values : Snapshot) :
    reference.Recovers keyValue host values ↔
      ∃ later, ((reference.effectiveEnvelope envelope).openWith key).perform host =
        (.ok values, later) := by
  rw [Recovers, recover_eq_openWith hsealed hkey, Operation.perform_bind]
  constructor
  · rintro ⟨data, later, hrecover, hview⟩
    split at hrecover
    · next opened between hopen =>
        have hplaceable := Envelope.placeable_of_openWith hopen
        have hplaced := Memory.viewAll_placeAll hplaceable between.memory
        rw [Operation.perform_placeAll] at hrecover
        cases hrecover
        rw [hplaced] at hview
        cases hview
        exact ⟨between, hopen⟩
    · cases hrecover
  · rintro ⟨between, hopen⟩
    have hplaceable := Envelope.placeable_of_openWith hopen
    have hplaced := Memory.viewAll_placeAll hplaceable between.memory
    rw [hopen]
    simp only
    rw [Operation.perform_placeAll]
    exact ⟨_, _, rfl, hplaced⟩

/-- Sixteen octets behind a body that are not its tag turn a reference away. -/
theorem recover_of_wrongTag {reference : Reference} {envelope : Envelope} {keyValue : Value}
    {key : Key} {associated : Octets} (hsealed : reference.envelope = some envelope)
    (hkey : Key.ofValue keyValue = .ok key) (hid : Envelope.idOctets reference.id = .ok associated)
    {body offered : Octets} (hciphertext : envelope.ciphertext = body ++ offered)
    (hoffered : offered.length = Aead.tagLength)
    (hwrong : offered ≠ Aead.tag key.octets envelope.nonce associated body) (host : Host) :
    ((reference.recover keyValue).perform host).1 = .error .integrity := by
  have hopened : Envelope.idOctets (reference.effectiveEnvelope envelope).id = .ok associated := hid
  have hdecrypt : Aead.decrypt key.octets (reference.effectiveEnvelope envelope).nonce associated
      (reference.effectiveEnvelope envelope).ciphertext = .error .tagMismatch := by
    rw [effectiveEnvelope, hciphertext, Aead.decrypt_append _ _ _ _ hoffered, if_neg hwrong]
  rw [recover_eq_openWith hsealed hkey, Operation.perform_bind, Envelope.perform_openWith, hopened]
  simp only
  rw [hdecrypt]
  -- a nonce of the wrong length is turned away with the same failure
  by_cases hnonce : (reference.effectiveEnvelope envelope).nonce.length = Aead.nonceLength
  · rw [if_pos hnonce]
  · rw [if_neg hnonce]

/-- The values that a sealed reference gives back are authentic: they are those that were encrypted
for its id under the key, and nothing but the id, the nonce, the key and the ciphertext counts. -/
theorem recovers_iff_encrypted {reference : Reference} {envelope : Envelope} {id : Text}
    {associated : Octets} {keyValue : Value} {key : Key}
    (hsealed : reference.envelope = some envelope) (hid : reference.id = .text id)
    (hassociated : Utf8.encode id = .ok associated) (hkey : Key.ofValue keyValue = .ok key)
    (host : Host) :
    (∀ values, reference.Recovers keyValue host values ↔
      envelope.nonce.length = Aead.nonceLength ∧ ∃ plaintext,
        envelope.ciphertext = Aead.encrypt key.octets envelope.nonce associated plaintext ∧
          Snapshot.decode plaintext = .ok values) ∧
    (∀ inner, { reference with envelope := some { envelope with id := inner } }.recover keyValue =
      reference.recover keyValue) ∧
    (∀ body offered, envelope.ciphertext = body ++ offered → offered.length = Aead.tagLength →
      ((reference.recover keyValue).perform host).1 ≠ .error .integrity →
        offered = Aead.tag key.octets envelope.nonce associated body) ∧
    (∀ other otherAssociated, other ≠ id → Utf8.encode other = .ok otherAssociated →
      otherAssociated ≠ associated) ∧
    (∀ values sealed later, (Envelope.ofItems (.text id) values key).perform host =
      (.ok sealed, later) → ∃ captured octets, values.items? = some captured ∧
        Snapshot.encode captured = .ok octets ∧
          ∀ anywhere, (sealed.openWith key).perform anywhere =
            (Snapshot.decode octets, anywhere)) := by
  have hoctets : Envelope.idOctets reference.id = .ok associated := by
    rw [hid, Envelope.idOctets, ActionId.octets, hassociated]
  have hopened : Envelope.idOctets (reference.effectiveEnvelope envelope).id = .ok associated :=
    hoctets
  refine ⟨?_, ?_, ?_, ?_, ?_⟩
  · intro values
    rw [recovers_iff_openWith hsealed hkey]
    constructor
    · rintro ⟨later, hopen⟩
      exact ((Envelope.openWith_eq_ok_iff hopened key).mp hopen).2
    · intro hencrypted
      exact ⟨host, (Envelope.openWith_eq_ok_iff hopened key).mpr ⟨rfl, hencrypted⟩⟩
  · intro inner
    rw [recover_eq_openWith hsealed hkey, recover_eq_openWith rfl hkey]
    rfl
  · intro body offered hciphertext hoffered haccepted
    by_contra hwrong
    exact haccepted (recover_of_wrongTag hsealed hkey hoctets hciphertext hoffered hwrong host)
  · rintro other _ hne hother rfl
    exact hne (Utf8.encode_injective hother hassociated)
  · intro values sealed later hseal
    exact Envelope.openWith_of_ofItems hseal

/-- The key of zeros. -/
def sampleKey : Key := ⟨List.replicate 32 0, rfl⟩

/-- A reference that was put together by hand, with another id inside its envelope. -/
def sampleSealed : Reference :=
  ofEnvelope (Value.ofString "pay") ⟨Value.ofString "refund", List.replicate 24 0,
    Aead.encrypt sampleKey.octets (List.replicate 24 0) [0x70, 0x61, 0x79] [0x5B, 0x31, 0x5D]⟩

theorem recovers_sampleSealed :
    sampleSealed.Recovers (.bytes sampleKey.octets) Host.untouched [.int 1] := by
  have hkey : Key.ofValue (.bytes sampleKey.octets) = .ok sampleKey := rfl
  have hassociated : Utf8.encode (Text.of "pay") = .ok [0x70, 0x61, 0x79] := rfl
  have hsealed : sampleSealed.envelope = some ⟨Value.ofString "refund", List.replicate 24 0,
      Aead.encrypt sampleKey.octets (List.replicate 24 0) [0x70, 0x61, 0x79] [0x5B, 0x31, 0x5D]⟩ :=
    rfl
  obtain ⟨hrecovers, -⟩ := recovers_iff_encrypted hsealed rfl hassociated hkey Host.untouched
  exact (hrecovers [.int 1]).mpr ⟨rfl, [0x5B, 0x31, 0x5D], rfl, rfl⟩

end Reference

end SealedCall
