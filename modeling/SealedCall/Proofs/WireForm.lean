import SealedCall.Proofs.Octets.Spelling
import SealedCall.Proofs.Text.Utf8
import SealedCall.Proofs.Value.Nested
import SealedCall.Reference

/-! # Wire forms read back

The wire form of a sealed reference is a dictionary of three texts. It is read back as the same
reference when its id can stand in one, and nonce and ciphertext hold anything at all. Whatever else
is offered as a wire form is read as a sealed reference under a text that has octets, or refused in
one way. A field that is written differently is read as the same octets only where it spells them.
-/

namespace SealedCall

namespace WireForm

theorem field?_text {t : Text} (hnonempty : t ≠ []) (hplain : t.hasSurrogate = false) :
    field? (.text t) = some t := by
  rw [field?, hplain, List.isEmpty_eq_false_iff.mpr hnonempty]
  rfl

theorem field?_encode {octets : Octets} (hoctets : octets ≠ []) :
    field? (.text (Base64.encode .urlSafe octets)) = some (Base64.encode .urlSafe octets) :=
  field?_text (Base64.encode_ne_nil .urlSafe hoctets) (Base64.hasSurrogate_encode .urlSafe octets)

theorem ofValue?_toValue {id nonce payload : Text} (hid : field? (.text id) = some id)
    (hnonce : field? (.text nonce) = some nonce)
    (hpayload : field? (.text payload) = some payload) :
    ofValue? (toValue (.text id) nonce payload) = some ⟨id, nonce, payload⟩ := by
  have hmembers : ∀ first second third : Value,
      member? [(Value.ofString "id", first), (Value.ofString "nonce", second),
        (Value.ofString "payload", third)] "id" = some first ∧
      member? [(Value.ofString "id", first), (Value.ofString "nonce", second),
        (Value.ofString "payload", third)] "nonce" = some second ∧
      member? [(Value.ofString "id", first), (Value.ofString "nonce", second),
        (Value.ofString "payload", third)] "payload" = some third :=
    fun _ _ _ => ⟨rfl, rfl, rfl⟩
  obtain ⟨hfirst, hsecond, hthird⟩ := hmembers (.text id) (.text nonce) (.text payload)
  rw [toValue, ofValue?, hfirst, hsecond, hthird, Option.bind_some, Option.bind_some,
    Option.bind_some, hid, hnonce, hpayload]

theorem hasSurrogate_of_field? {v : Value} {t : Text} (hfield : field? v = some t) :
    t.hasSurrogate = false := by
  have hoctets : ∀ octets, field? (.bytes octets) = some t → t.hasSurrogate = false := by
    intro octets hdecoded
    rw [field?] at hdecoded
    split at hdecoded
    · cases hdecoded
    · exact Utf8.hasSurrogate_of_decode hdecoded
  cases v with
  | text held =>
      rw [field?] at hfield
      split at hfield
      · cases hfield
      · next hplain =>
          cases hfield
          exact (Bool.or_eq_false_iff.mp (Bool.eq_false_iff.mpr hplain)).2
  | bytes octets => exact hoctets octets hfield
  | byteArray octets => exact hoctets octets hfield
  | _ => cases hfield

theorem ne_nil_of_field? {v : Value} {t : Text} (hfield : field? v = some t) : t ≠ [] := by
  have hoctets : ∀ octets, field? (.bytes octets) = some t → t ≠ [] := by
    intro octets hdecoded hnil
    subst hnil
    rw [field?] at hdecoded
    split at hdecoded
    · cases hdecoded
    · next hsome => exact hsome hdecoded
  cases v with
  | text held =>
      rw [field?] at hfield
      split at hfield
      · cases hfield
      · next hplain =>
          cases hfield
          exact List.isEmpty_eq_false_iff.mp
            (Bool.or_eq_false_iff.mp (Bool.eq_false_iff.mpr hplain)).1
  | bytes octets => exact hoctets octets hfield
  | byteArray octets => exact hoctets octets hfield
  | _ => cases hfield

/-- Every text of a wire form is one that a field was read as. -/
theorem fields_of_ofValue? {data : Value} {wire : WireForm} (hwire : ofValue? data = some wire) :
    ∀ t ∈ [wire.id, wire.nonce, wire.payload], ∃ member, field? member = some t := by
  cases data with
  | dict entries =>
      rw [ofValue?] at hwire
      split at hwire
      · next hid hnonce hpayload =>
          cases hwire
          obtain ⟨idMember, -, hid⟩ := Option.bind_eq_some_iff.mp hid
          obtain ⟨nonceMember, -, hnonce⟩ := Option.bind_eq_some_iff.mp hnonce
          obtain ⟨payloadMember, -, hpayload⟩ := Option.bind_eq_some_iff.mp hpayload
          simp only [List.forall_mem_cons]
          exact ⟨⟨_, hid⟩, ⟨_, hnonce⟩, ⟨_, hpayload⟩, List.forall_mem_nil _⟩
      · cases hwire
  | _ => cases hwire

theorem hasSurrogate_of_ofValue? {data : Value} {wire : WireForm}
    (hwire : ofValue? data = some wire) : wire.id.hasSurrogate = false := by
  obtain ⟨member, hfield⟩ := fields_of_ofValue? hwire wire.id (by simp)
  exact hasSurrogate_of_field? hfield

theorem ne_nil_of_ofValue? {data : Value} {wire : WireForm} (hwire : ofValue? data = some wire) :
    wire.id ≠ [] ∧ wire.nonce ≠ [] ∧ wire.payload ≠ [] := by
  have hfields : ∀ t ∈ [wire.id, wire.nonce, wire.payload], t ≠ [] := by
    intro t hmem
    obtain ⟨member, hfield⟩ := fields_of_ofValue? hwire t hmem
    exact ne_nil_of_field? hfield
  simpa using hfields

end WireForm

/-- The reference that a wire form was made of is read back from it, with the id beside the envelope
inside it as well. -/
theorem Reference.ofWireValue_wireForm {id : Text} {nonce ciphertext : Octets} {wire : Value}
    (hid : id ≠ []) (hplain : id.hasSurrogate = false) (hnonce : nonce ≠ [])
    (hciphertext : ciphertext ≠ []) {inner : Value}
    (hwire : (ofEnvelope (.text id) ⟨inner, nonce, ciphertext⟩).wireForm = .ok wire) :
    ofWireValue wire = .ok (ofEnvelope (.text id) ⟨.text id, nonce, ciphertext⟩) := by
  cases hwire
  rw [ofWireValue, ofEnvelope, WireForm.ofValue?_toValue (WireForm.field?_text hid hplain)
    (WireForm.field?_encode hnonce) (WireForm.field?_encode hciphertext)]
  simp only
  rw [ofWireForm, Base64.decodeUnpadded?_encode, Base64.decodeUnpadded?_encode]

/-- Whatever is read from a wire form is sealed, with the same id beside the envelope and inside it.
That id can stand in a wire form again, and nonce and ciphertext hold at least one octet. -/
theorem Reference.parts_of_ofWireValue {data : Value} {reference : Reference}
    (hread : ofWireValue data = .ok reference) :
    ∃ id nonce ciphertext, reference = .ofEnvelope (.text id) ⟨.text id, nonce, ciphertext⟩ ∧
      id ≠ [] ∧ id.hasSurrogate = false ∧ nonce ≠ [] ∧ ciphertext ≠ [] := by
  rw [ofWireValue] at hread
  split at hread
  · next wire hwire =>
      obtain ⟨hid, hnonce, hpayload⟩ := WireForm.ne_nil_of_ofValue? hwire
      rw [ofWireForm] at hread
      split at hread
      · next nonce ciphertext hnonceRead hpayloadRead =>
          cases hread
          exact ⟨wire.id, nonce, ciphertext, rfl, hid, WireForm.hasSurrogate_of_ofValue? hwire,
            Base64.decodeUnpadded?_ne_nil hnonce hnonceRead,
            Base64.decodeUnpadded?_ne_nil hpayload hpayloadRead⟩
      · cases hread
  · cases hread

/-- Whatever is read from a wire form is sealed under an id that has octets. -/
theorem Reference.ofWireValue_eq_ok {data : Value} {reference : Reference}
    (hread : ofWireValue data = .ok reference) :
    ∃ id nonce ciphertext associated, Utf8.encode id = .ok associated ∧
      reference = .ofEnvelope (.text id) ⟨.text id, nonce, ciphertext⟩ := by
  obtain ⟨id, nonce, ciphertext, hreference, -, hplain, -, -⟩ := parts_of_ofWireValue hread
  obtain ⟨associated, hassociated⟩ := Utf8.exists_encode hplain
  exact ⟨id, nonce, ciphertext, associated, hassociated, hreference⟩

/-- What cannot be read as a wire form is refused in one way, whatever is wrong with it. -/
theorem Reference.ofWireValue_eq_error {data : Value} {failure : Failure}
    (hread : ofWireValue data = .error failure) : failure = .malformed .badReference := by
  rw [ofWireValue] at hread
  split at hread
  · rw [ofWireForm] at hread
    split at hread
    · cases hread
    · cases hread
      rfl
  · cases hread
    rfl

/-- What a sealed reference recovers goes by the id beside the envelope, nonce and ciphertext. -/
theorem Reference.recover_ofEnvelope (reference : Reference) {envelope : Envelope}
    (henvelope : reference.envelope = some envelope) (key : Value) :
    (ofEnvelope reference.id ⟨reference.id, envelope.nonce, envelope.ciphertext⟩).recover key =
      reference.recover key := by
  rw [recover, recover, henvelope]
  rfl

/-- A sealed reference comes back from its wire form with its id, nonce and ciphertext, the id
inside the envelope as well, and recovers under every key what it recovered before. Whatever is
read from data holds neither an empty nonce nor an empty ciphertext, has a wire form, and that one
is read as the same reference: of all the spellings that are read, the wire form is the one that is
written. -/
theorem Reference.wireForm_reads_back :
    (∀ (reference : Reference) (id : Text) (envelope : Envelope),
      reference.id = .text id → reference.envelope = some envelope →
        id ≠ [] → id.hasSurrogate = false → envelope.nonce ≠ [] → envelope.ciphertext ≠ [] →
          ∃ wire returned, reference.wireForm = .ok wire ∧ ofWireValue wire = .ok returned ∧
            returned.id = reference.id ∧
            returned.envelope =
              some ⟨reference.id, envelope.nonce, envelope.ciphertext⟩ ∧
            ∀ key, returned.recover key = reference.recover key) ∧
    ∀ (data : Value) (reference : Reference), ofWireValue data = .ok reference →
      (∃ wire, reference.wireForm = .ok wire ∧ ofWireValue wire = .ok reference) ∧
        ∃ envelope, reference.envelope = some envelope ∧ envelope.nonce ≠ [] ∧
          envelope.ciphertext ≠ [] := by
  constructor
  · rintro ⟨id, snapshot, envelope⟩ t held rfl rfl hid hplain hnonce hciphertext
    refine ⟨_, _, rfl, ofWireValue_wireForm hid hplain hnonce hciphertext rfl, rfl, rfl, ?_⟩
    intro key
    exact recover_ofEnvelope ⟨.text t, snapshot, some held⟩ rfl key
  · intro data reference hread
    obtain ⟨id, nonce, ciphertext, rfl, hid, hplain, hnonce, hciphertext⟩ :=
      parts_of_ofWireValue hread
    exact ⟨⟨_, rfl, ofWireValue_wireForm hid hplain hnonce hciphertext rfl⟩, _, rfl, hnonce,
      hciphertext⟩

/-- A wire form as nobody writes it: padding where it may be left out, octets for a text, both
alphabets mixed, spare bits set, and an entry too many. -/
def WireForm.sampleSpelling : Value :=
  .dict [(Value.ofString "spare", .null), (Value.ofString "payload", Value.ofString "-/9="),
    (Value.ofString "nonce", .bytes [0x41, 0x51, 0x3D, 0x3D]),
    (Value.ofString "id", Value.ofString "refund")]

theorem Reference.wireForm_reads_back_sample :
    (∃ wire returned,
      (ofEnvelope (Value.ofString "refund") ⟨.null, [1], [0xFB, 0xFF]⟩).wireForm = .ok wire ∧
        ofWireValue wire = .ok returned ∧ returned.id = Value.ofString "refund") ∧
      ∃ reference, ofWireValue WireForm.sampleSpelling = .ok reference ∧
        ∃ wire, reference.wireForm = .ok wire ∧ ofWireValue wire = .ok reference := by
  constructor
  · obtain ⟨wire, returned, hwire, hread, hid, -⟩ := wireForm_reads_back.1
      (ofEnvelope (Value.ofString "refund") ⟨.null, [1], [0xFB, 0xFF]⟩) (Text.of "refund") _ rfl rfl
      (by decide) (by decide) (by decide) (by decide)
    exact ⟨wire, returned, hwire, hread, hid⟩
  · have hread : ofWireValue WireForm.sampleSpelling =
        .ok (ofEnvelope (Value.ofString "refund")
          ⟨Value.ofString "refund", [1], [0xFB, 0xFF]⟩) := by rfl
    exact ⟨_, hread, (wireForm_reads_back.2 _ _ hread).1⟩

/-! ## Altered fields -/

/-- What a wire form is read as goes by what its fields spell. -/
theorem Reference.ofWireForm_eq_ok_iff {wire : WireForm} {nonce ciphertext : Octets} :
    ofWireForm wire = .ok (ofEnvelope (.text wire.id) ⟨.text wire.id, nonce, ciphertext⟩) ↔
      Base64.Spells wire.nonce nonce ∧ Base64.Spells wire.payload ciphertext := by
  rw [← Base64.decodeUnpadded?_eq_some_iff_spells, ← Base64.decodeUnpadded?_eq_some_iff_spells,
    ofWireForm]
  constructor
  · intro hread
    split at hread
    · next hnonce hciphertext =>
        cases hread
        exact ⟨hnonce, hciphertext⟩
    · cases hread
  · rintro ⟨hnonce, hciphertext⟩
    rw [hnonce, hciphertext]

theorem Reference.ofWireForm_cases (wire : WireForm) :
    ofWireForm wire = .error (.malformed .badReference) ∨
      ∃ nonce ciphertext, ofWireForm wire =
        .ok (ofEnvelope (.text wire.id) ⟨.text wire.id, nonce, ciphertext⟩) := by
  rw [ofWireForm]
  split
  · exact .inr ⟨_, _, rfl⟩
  · exact .inl rfl

/-- Octets are written in the URL-safe alphabet without padding and read back. A text is read as
octets exactly when it spells them: data characters and nothing but padding behind them, as many as
are written, and the written ones but for the alphabet and for four or two spare bits of the last.
So a wire form with other fields is read as the same nonce and ciphertext exactly when these spell
them, and is refused or read as other octets when they do not. -/
theorem WireForm.exactly_spellings_read :
    (∀ octets : Octets,
      (∀ point ∈ Base64.encode .urlSafe octets,
        Base64.isUrlSafe point = true ∧ point.is '=' = false) ∧
      Base64.decodeUnpadded? .urlSafe (Base64.encode .urlSafe octets) = some octets) ∧
    (∀ (t : Text) (octets : Octets),
      Base64.decodeUnpadded? .urlSafe t = some octets ↔ Base64.Spells t octets) ∧
    ∀ (wire : WireForm) (nonce ciphertext : Octets),
      (Base64.Spells wire.nonce nonce ∧ Base64.Spells wire.payload ciphertext →
        Reference.ofWireForm wire =
          .ok (.ofEnvelope (.text wire.id) ⟨.text wire.id, nonce, ciphertext⟩)) ∧
      (¬(Base64.Spells wire.nonce nonce ∧ Base64.Spells wire.payload ciphertext) →
        Reference.ofWireForm wire = .error (.malformed .badReference) ∨
          ∃ otherNonce otherCiphertext,
            (otherNonce ≠ nonce ∨ otherCiphertext ≠ ciphertext) ∧
              Reference.ofWireForm wire = .ok (.ofEnvelope (.text wire.id)
                ⟨.text wire.id, otherNonce, otherCiphertext⟩)) := by
  refine ⟨?_, fun t octets => Base64.decodeUnpadded?_eq_some_iff_spells, ?_⟩
  · intro octets
    refine ⟨?_, Base64.decodeUnpadded?_encode .urlSafe octets⟩
    intro point hmem
    exact ⟨Base64.isUrlSafe_of_mem_encode hmem, Base64.is_padding_of_mem_encode hmem⟩
  · intro wire nonce ciphertext
    refine ⟨Reference.ofWireForm_eq_ok_iff.mpr, ?_⟩
    intro hunspelled
    rcases Reference.ofWireForm_cases wire with hrefused | ⟨otherNonce, otherCiphertext, hread⟩
    · exact .inl hrefused
    · refine .inr ⟨otherNonce, otherCiphertext, ?_, hread⟩
      -- were both the same octets, the fields would spell them
      rw [← Decidable.not_and_iff_not_or_not]
      rintro ⟨rfl, rfl⟩
      exact hunspelled (Reference.ofWireForm_eq_ok_iff.mp hread)

/-- A wire form with some of its padding, spare bits set, and the alphabets mixed. -/
def WireForm.sampleRespelled : WireForm :=
  ⟨Text.of "refund", Text.of "AR=", Text.of "-/9="⟩

/-- The same with a bit changed that is not to spare. -/
def WireForm.sampleAltered : WireForm :=
  { WireForm.sampleRespelled with nonce := Text.of "Ax=" }

theorem WireForm.exactly_spellings_read_sample :
    (CodePoint.ofChar '-' ∈ Base64.encode .urlSafe [0xFB, 0xFF] ∧
      Base64.isUrlSafe (CodePoint.ofChar '-') = true) ∧
    (Base64.Spells sampleRespelled.nonce [1] ∧ Base64.Spells sampleRespelled.payload [0xFB, 0xFF] ∧
      Reference.ofWireForm sampleRespelled =
        .ok (.ofEnvelope (.text sampleRespelled.id)
          ⟨.text sampleRespelled.id, [1], [0xFB, 0xFF]⟩)) ∧
    ¬Base64.Spells sampleAltered.nonce [1] ∧
      (Reference.ofWireForm sampleAltered = .error (.malformed .badReference) ∨
        ∃ otherNonce otherCiphertext,
          (otherNonce ≠ [1] ∨ otherCiphertext ≠ [0xFB, 0xFF]) ∧
            Reference.ofWireForm sampleAltered = .ok (.ofEnvelope (.text sampleAltered.id)
              ⟨.text sampleAltered.id, otherNonce, otherCiphertext⟩)) := by
  obtain ⟨hwritten, hspells, hread⟩ := exactly_spellings_read
  have hhyphen : CodePoint.ofChar '-' ∈ Base64.encode .urlSafe [0xFB, 0xFF] := by decide
  have hnonce : Base64.Spells sampleRespelled.nonce [1] := (hspells _ _).mp (by decide)
  have hpayload : Base64.Spells sampleRespelled.payload [0xFB, 0xFF] :=
    (hspells _ _).mp (by decide)
  have haltered : ¬Base64.Spells sampleAltered.nonce [1] :=
    fun hnonce => absurd ((hspells _ _).mpr hnonce) (by decide)
  exact ⟨⟨hhyphen, ((hwritten _).1 _ hhyphen).1⟩,
    ⟨hnonce, hpayload, (hread _ _ _).1 ⟨hnonce, hpayload⟩⟩, haltered,
    (hread _ _ _).2 fun hboth => haltered hboth.1⟩

end SealedCall
