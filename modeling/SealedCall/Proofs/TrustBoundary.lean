import SealedCall.Proofs.Delivery

/-! # Outcomes at the trust boundary

Whatever is offered from outside as a wire form, invoking it ends with a value or with one of the
mechanism's own failures, apart from three. A ciphertext that is shorter than a tag is refused by
the cipher itself, with a failure of its own. A plaintext that verifies but nests too deep ends the
reading of it. And what an implementation raises is let through where it aborts, and cannot be
wrapped where it has no written form.
-/

namespace SealedCall

/-- Whether a failure is one that a caller from outside is told to expect. -/
def Failure.isOutward : Failure → Bool
  | .malformed _ | .integrity | .unknownAction _ | .execution _ _ => true
  | _ => false

/-- What cannot be decoded is malformed, or it nests too deep. -/
theorem Snapshot.decode_eq_error {octets : Octets} {failure : Failure}
    (hdecode : decode octets = .error failure) :
    (∃ cause, failure = .malformed cause) ∨ failure = .tooDeep := by
  rw [decode] at hdecode
  split at hdecode
  · cases hdecode
    exact .inl ⟨_, rfl⟩
  · split at hdecode
    · cases hdecode
    · cases hdecode
      exact .inl ⟨_, rfl⟩
    · cases hdecode
      exact .inr rfl
    · cases hdecode
      exact .inl ⟨_, rfl⟩

namespace Envelope

/-- Whether an envelope holds an encryption under a key, for these associated octets. -/
def Holds (envelope : Envelope) (key : Key) (associated plaintext : Octets) : Prop :=
  envelope.nonce.length = Aead.nonceLength ∧
    envelope.ciphertext = Aead.encrypt key.octets envelope.nonce associated plaintext

/-- Whether the cipher refuses an envelope for its length, before it looks for a tag. -/
def IsCutShort (envelope : Envelope) : Prop :=
  envelope.nonce.length = Aead.nonceLength ∧ envelope.ciphertext.length < Aead.tagLength

variable {envelope : Envelope} {associated : Octets} {key : Key} {host later : Host}
  {failure : Failure}

/-- What holds no encryption and is not cut short is refused for its integrity. -/
theorem perform_openWith_altered (hid : idOctets envelope.id = .ok associated)
    (hnot : ¬ ∃ plaintext, envelope.Holds key associated plaintext)
    (hlong : ¬ envelope.IsCutShort) (host : Host) :
    ((envelope.openWith key).perform host).1 = .error .integrity := by
  rw [perform_openWith, hid]
  split
  · next hnonce =>
      simp only
      cases hdecrypt : Aead.decrypt key.octets envelope.nonce associated envelope.ciphertext with
      | ok plaintext => exact absurd ⟨plaintext, hnonce, Aead.decrypt_eq_ok_iff.mp hdecrypt⟩ hnot
      | error refusal =>
          cases refusal with
          | tagMismatch => rfl
          | shorterThanTag =>
              rw [Aead.decrypt_eq_shorterThanTag_iff] at hdecrypt
              exact absurd ⟨hnonce, hdecrypt⟩ hlong
  · rfl

/-- What is cut short below the length of a tag is refused by the cipher. -/
theorem perform_openWith_short (hid : idOctets envelope.id = .ok associated)
    (hshort : envelope.IsCutShort) (key : Key) (host : Host) :
    ((envelope.openWith key).perform host).1 = .error (.misuse .shorterThanTag) := by
  rw [perform_openWith, hid, if_pos hshort.1]
  simp only
  rw [Aead.decrypt_eq_shorterThanTag_iff.mpr hshort.2]

theorem openWith_eq_error (hid : idOctets envelope.id = .ok associated)
    (hopen : (envelope.openWith key).perform host = (.error failure, later)) :
    failure = .integrity ∨ (failure = .misuse .shorterThanTag ∧ envelope.IsCutShort) ∨
      ∃ plaintext, envelope.Holds key associated plaintext ∧
        Snapshot.decode plaintext = .error failure := by
  by_cases hshort : envelope.IsCutShort
  · have hperform := perform_openWith_short hid hshort key host
    rw [hopen] at hperform
    cases hperform
    exact .inr (.inl ⟨rfl, hshort⟩)
  by_cases hholds : ∃ plaintext, envelope.Holds key associated plaintext
  · obtain ⟨plaintext, hnonce, hciphertext⟩ := hholds
    rw [perform_openWith, if_pos hnonce, hid] at hopen
    simp only at hopen
    rw [Aead.decrypt_eq_ok_iff.mpr hciphertext] at hopen
    exact .inr (.inr ⟨plaintext, ⟨hnonce, hciphertext⟩, (Prod.mk.inj hopen).1⟩)
  · have hperform := perform_openWith_altered hid hholds hshort host
    rw [hopen] at hperform
    cases hperform
    exact .inl rfl

end Envelope

/-- Recovering a sealed reference fails exactly as opening its envelope does. -/
theorem Reference.openWith_of_recover_eq_error {reference : Reference} {envelope : Envelope}
    {keyValue : Value} {key : Key} (hsealed : reference.envelope = some envelope)
    (hkey : Key.ofValue keyValue = .ok key) {host later : Host} {failure : Failure}
    (hrecover : (reference.recover keyValue).perform host = (.error failure, later)) :
    ((reference.effectiveEnvelope envelope).openWith key).perform host =
      (.error failure, later) := by
  rw [recover_eq_openWith hsealed hkey, Operation.perform_bind] at hrecover
  split at hrecover
  · rw [Operation.perform_placeAll] at hrecover
    cases hrecover
  · next hopen =>
      cases hrecover
      exact hopen

theorem Reference.recover_of_openWith_eq_error {reference : Reference} {envelope : Envelope}
    {keyValue : Value} {key : Key} (hsealed : reference.envelope = some envelope)
    (hkey : Key.ofValue keyValue = .ok key) {host : Host} {failure : Failure}
    (hopen : (((reference.effectiveEnvelope envelope).openWith key).perform host).1 =
      .error failure) :
    ∃ later, (reference.recover keyValue).perform host = (.error failure, later) := by
  rw [recover_eq_openWith hsealed hkey, Operation.perform_bind]
  split
  · next hopened =>
      rw [hopened] at hopen
      cases hopen
  · next hopened =>
      rw [hopened] at hopen
      cases hopen
      exact ⟨_, rfl⟩

namespace Invocation

/-- What comes out of an implementation under a text is outward, unless it aborts or what it raised
has no written form. -/
theorem wrapped_eq_error {id : Text} {outcome : Except Failure Datum} {failure : Failure}
    (hwrapped : wrapped (.text id) outcome = .error failure) :
    failure.isOutward = true ∨ ∃ raised, outcome = .error raised ∧
      (raised.isAbort = true ∧ failure = raised ∨
        raised.isAbort = false ∧ raised.isShowable = false ∧ failure = .misuse .tooManyDigits) := by
  cases outcome with
  | ok result => cases hwrapped
  | error raised =>
      rw [wrapped] at hwrapped
      split at hwrapped
      · next habort =>
          cases hwrapped
          exact .inr ⟨_, rfl, .inl ⟨habort, rfl⟩⟩
      · next habort =>
          cases hwrapped
          rw [Failure.checked]
          split
          · exact .inl rfl
          · next hshowable =>
              refine .inr ⟨_, rfl, .inr ⟨Bool.eq_false_iff.mpr habort, ?_, rfl⟩⟩
              -- the id is a text, so it is what was raised that cannot be shown
              have hid : (Value.text id).isShowable = true := rfl
              rw [Failure.isShowable, hid, Bool.true_and] at hshowable
              exact Bool.eq_false_iff.mpr hshowable

/-- How the invocation of a reference that is sealed under a text can fail. -/
theorem failure_of_sealed {id : Text} {envelope : Envelope} {key : Key} {associated : Octets}
    {keyValue : Value} (hassociated : Envelope.idOctets (.text id) = .ok associated)
    (hkey : Key.ofValue keyValue = .ok key) {arguments : List Datum} {host : Host}
    {behaviour : Behaviour} {failure : Failure}
    (hfailure : ((run behaviour (.ofEnvelope (.text id) envelope) arguments keyValue).run host).1 =
      .error failure) :
    failure.isOutward = true ∨ (failure = .misuse .shorterThanTag ∧ envelope.IsCutShort) ∨
      (failure = .tooDeep ∧ ∃ plaintext, envelope.Holds key associated plaintext ∧
        Snapshot.decode plaintext = .error .tooDeep) ∨
      ∃ implementation values before raised,
        Applies (.ofEnvelope (.text id) envelope) arguments keyValue host implementation values
          before ∧
        ((behaviour implementation values).run before).1 = .error raised ∧
        (raised.isAbort = true ∧ failure = raised ∨
          raised.isAbort = false ∧ raised.isShowable = false ∧
            failure = .misuse .tooManyDigits) := by
  cases hrecover : (Reference.recover (.ofEnvelope (.text id) envelope) keyValue).perform host with
  | mk outcome after =>
    cases outcome with
    | error refusal =>
        have hturned : TurnsAway _ arguments keyValue host refusal := turnsAway_of_recover hrecover
        obtain ⟨ended, hended⟩ := hturned
        rw [hended behaviour] at hfailure
        cases hfailure
        have hopen := Reference.openWith_of_recover_eq_error rfl hkey hrecover
        rcases Envelope.openWith_eq_error hassociated hopen with
          rfl | hshort | ⟨plaintext, hholds, hdecode⟩
        · exact .inl rfl
        · exact .inr (.inl hshort)
        · rcases Snapshot.decode_eq_error hdecode with ⟨cause, rfl⟩ | rfl
          · exact .inl rfl
          · exact .inr (.inr (.inl ⟨rfl, plaintext, hholds, hdecode⟩))
    | ok recovered =>
        cases hlookup : after.roster.implementationOf (.text id) with
        | error unknown =>
            have hturned : TurnsAway _ arguments keyValue host unknown :=
              turnsAway_of_lookup hrecover hlookup
            obtain ⟨ended, hended⟩ := hturned
            rw [hended behaviour] at hfailure
            cases hfailure
            obtain ⟨hunknown, -⟩ := Roster.implementationOf_eq_error hlookup
            rw [hunknown rfl rfl]
            exact .inl rfl
        | ok implementation =>
            have happlies : Applies _ arguments keyValue host implementation _ after :=
              applies_of_lookup hrecover hlookup
            rw [happlies behaviour] at hfailure
            rcases wrapped_eq_error hfailure with houtward | ⟨raised, hraised, hcase⟩
            · exact .inl houtward
            · exact .inr (.inr (.inr ⟨_, _, _, raised, happlies, hraised, hcase⟩))

end Invocation

namespace Service

/-- Whether the invocation of a wire form fails in the same way whatever the implementations do. -/
def Rejects (service : Service) (data : Value) (arguments : List Datum) (host : Host)
    (failure : Failure) : Prop :=
  ∃ later, ∀ behaviour,
    (service.runWritten behaviour data arguments).run host = (.error failure, later)

/-- How the invocation of a wire form can end. What cannot be read is refused as malformed, and a
sealed reference that does not verify for its integrity, with nothing applied. Every other failure
is an outward one, save where a ciphertext has no room for a tag, a plaintext nests too deep, or the
applied implementation aborts or raises what has no written form. -/
theorem outcome_of_written (service : Service) (data : Value) (arguments : List Datum)
    (host : Host) :
    (∀ failure, Reference.ofWireValue data = .error failure →
      failure = .malformed .badReference ∧ ∀ behaviour,
        (service.runWritten behaviour data arguments).run host = (.error failure, host)) ∧
    (∀ reference, Reference.ofWireValue data = .ok reference →
      ∃ id envelope associated, reference = .ofEnvelope (.text id) envelope ∧
        Utf8.encode id = .ok associated ∧
        (envelope.IsCutShort → service.Rejects data arguments host (.misuse .shorterThanTag)) ∧
        (¬ envelope.IsCutShort → (¬ ∃ plaintext, envelope.Holds service.key associated plaintext) →
          service.Rejects data arguments host .integrity) ∧
        ∀ behaviour failure,
          ((service.runWritten behaviour data arguments).run host).1 = .error failure →
            failure.isOutward = true ∨
            (failure = .misuse .shorterThanTag ∧ envelope.IsCutShort) ∨
            (failure = .tooDeep ∧ ∃ plaintext, envelope.Holds service.key associated plaintext ∧
              Snapshot.decode plaintext = .error .tooDeep) ∨
            ∃ implementation values before raised,
              Invocation.Applies reference arguments service.keyValue host implementation values
                before ∧
              ((behaviour implementation values).run before).1 = .error raised ∧
              (raised.isAbort = true ∧ failure = raised ∨
                raised.isAbort = false ∧ raised.isShowable = false ∧
                  failure = .misuse .tooManyDigits)) := by
  constructor
  · intro failure hread
    refine ⟨Reference.ofWireValue_eq_error hread, fun behaviour => ?_⟩
    rw [runWritten, hread]
    rfl
  intro reference hread
  obtain ⟨id, nonce, ciphertext, associated, hassociated, rfl⟩ :=
    Reference.ofWireValue_eq_ok hread
  have hid : Envelope.idOctets (.text id) = .ok associated := by
    rw [Envelope.idOctets, ActionId.octets, hassociated]
  have hkey : Key.ofValue service.keyValue = .ok service.key := service.key.ofValue_bytes
  have hrun : ∀ behaviour, service.runWritten behaviour data arguments =
      Invocation.run behaviour (.ofEnvelope (.text id) ⟨.text id, nonce, ciphertext⟩) arguments
        service.keyValue := by
    intro behaviour
    rw [runWritten, hread]
    rfl
  have hrejects : ∀ {failure : Failure},
      ((Envelope.openWith ⟨.text id, nonce, ciphertext⟩ service.key).perform host).1 =
        .error failure → service.Rejects data arguments host failure := by
    intro failure hopen
    have hsealed : (Reference.ofEnvelope (.text id) ⟨.text id, nonce, ciphertext⟩).envelope =
        some ⟨.text id, nonce, ciphertext⟩ := rfl
    obtain ⟨later, hrecover⟩ := Reference.recover_of_openWith_eq_error hsealed hkey hopen
    have hturned : Invocation.TurnsAway _ arguments service.keyValue host failure :=
      Invocation.turnsAway_of_recover hrecover
    obtain ⟨ended, hended⟩ := hturned
    exact ⟨ended, fun behaviour => by rw [hrun behaviour, hended behaviour]⟩
  refine ⟨id, _, associated, rfl, hassociated, ?_, ?_, ?_⟩
  · exact fun hshort => hrejects (Envelope.perform_openWith_short hid hshort service.key host)
  · exact fun hlong hnot => hrejects (Envelope.perform_openWith_altered hid hnot hlong host)
  · intro behaviour failure hfailure
    rw [hrun behaviour] at hfailure
    exact Invocation.failure_of_sealed hid hkey hfailure

/-- A ciphertext of three octets under a nonce of the right length is refused by the cipher, so the
outward failures and the aborts are not all there are. -/
theorem not_always_outward :
    ¬ ∀ (service : Service) (behaviour : Behaviour) (data : Value) (arguments : List Datum)
        (host : Host) (failure : Failure),
      ((service.runWritten behaviour data arguments).run host).1 = .error failure →
        failure.isOutward = true ∨ failure.isAbort = true := by
  intro hclaim
  have hshort := hclaim .sample .sample
    (WireForm.toValue (Value.ofString "a1") (Text.replicate 32 'A') (Text.of "AAAA")) []
    Host.untouched (.misuse .shorterThanTag) rfl
  exact absurd hshort (by decide)

end Service

end SealedCall
