import SealedCall.Proofs.Json.Recognition
import SealedCall.Proofs.Snapshot.Accepted
import SealedCall.Proofs.Text.Utf8

/-! # Which octets decode

The octets that decode are those of a text that is one array with nothing but blanks around it, and
they decode to the values that the grammar gives its items. All other octets are refused as
malformed, as long as the text does not nest too deep.
-/

namespace SealedCall.Snapshot

theorem decode_of_document {octets : Octets} {t : Text} {values : Snapshot}
    (hencode : Utf8.encode t = .ok octets) (hdocument : Json.Document t (.list values))
    (hnesting : Json.nesting t ≤ nestingLimit) : decode octets = .ok values := by
  rw [decode, Utf8.decode?_encode hencode]
  simp only
  rw [Json.read_of_document hdocument hnesting]

theorem document_of_decode {octets : Octets} {values : Snapshot}
    (hdecode : decode octets = .ok values) :
    ∃ t, Utf8.encode t = .ok octets ∧ Json.Document t (.list values) := by
  rw [decode] at hdecode
  split at hdecode
  · cases hdecode
  · next t htext =>
      split at hdecode
      · next hread =>
          cases hdecode
          exact ⟨t, Utf8.encode_of_decode htext, Json.document_of_read hread⟩
      all_goals cases hdecode

/-- Octets of a text that does not nest too deep are refused as malformed or not at all. -/
theorem malformed_of_decode {octets : Octets} {failure : Failure}
    (hnesting : ∀ t, Utf8.encode t = .ok octets → Json.nesting t ≤ nestingLimit)
    (hdecode : decode octets = .error failure) : Malformed failure := by
  rw [decode] at hdecode
  split at hdecode
  · cases hdecode
    exact ⟨_, rfl⟩
  · next t htext =>
      have hlimit := hnesting t (Utf8.encode_of_decode htext)
      split at hdecode
      · cases hdecode
      · cases hdecode
        exact ⟨_, rfl⟩
      · next hread => exact absurd (Json.nestingLimit_lt_peak hread) (Nat.not_lt.mpr hlimit)
      · cases hdecode
        exact ⟨_, rfl⟩

/-- Octets decode to values exactly when they are the UTF-8 form of a text that is one array of
these values with nothing but blanks around it, and otherwise they are refused as malformed. -/
theorem decodes_iff_document {octets : Octets}
    (hnesting : ∀ t, Utf8.encode t = .ok octets → Json.nesting t ≤ nestingLimit) :
    (∀ values, decode octets = .ok values ↔
      ∃ t, Utf8.encode t = .ok octets ∧ Json.Document t (.list values)) ∧
    ((¬ ∃ values t, Utf8.encode t = .ok octets ∧ Json.Document t (.list values)) →
      ∃ cause, decode octets = .error (.malformed cause)) := by
  have hexact : ∀ values, decode octets = .ok values ↔
      ∃ t, Utf8.encode t = .ok octets ∧ Json.Document t (.list values) := by
    refine fun values => ⟨document_of_decode, ?_⟩
    rintro ⟨t, hencode, hdocument⟩
    exact decode_of_document hencode hdocument (hnesting t hencode)
  refine ⟨hexact, fun hnone => ?_⟩
  cases hdecode : decode octets with
  | ok values => exact absurd ⟨values, (hexact values).mp hdecode⟩ hnone
  | error failure =>
      obtain ⟨cause, rfl⟩ := malformed_of_decode hnesting hdecode
      exact ⟨cause, rfl⟩

/-- A text with blanks, an escape that is not needed and a key that is repeated. -/
def spaced : Text := Text.of " [1 , \x7b\"\\u0061\": null, \"a\": true\x7d]"

/-- What the spaced text stands for: the key is there once. -/
def spacedValues : Snapshot := [.int 1, .dict [(Value.ofString "a", .bool true)]]

/-- What stands behind the number in the spaced text. -/
def spacedRest : Text := Text.of " , \x7b\"\\u0061\": null, \"a\": true\x7d]"

theorem read_spaced : Json.read spaced = .ok (.list spacedValues) := by
  have hopen : Json.nextLexeme 0 spaced = ⟨.openArray, 1, 2, Text.of "1" ++ spacedRest⟩ := rfl
  have hnumber : Json.nextLexeme 2 (Text.of "1" ++ spacedRest) =
      ⟨.scalar (.int 1), 2, 3, spacedRest⟩ := rfl
  have hlength : spaced.length = spacedRest.length + 2 + 1 := rfl
  -- behind the number there is only punctuation, and texts and words that are compared as they are
  rw [Json.read, Json.readFrom_step (by rw [hopen]; rfl), hopen, hlength]
  simp only
  rw [Json.readFrom_step (by rw [hnumber]; rfl), hnumber]
  cbv

theorem decode_spaced : decode (asciiOctets spaced) = .ok spacedValues := by
  have hencode : Utf8.encode spaced = .ok (asciiOctets spaced) := rfl
  rw [decode, Utf8.decode?_encode hencode]
  simp only
  rw [read_spaced]

/-- The spaced text is an array of its values. -/
theorem decodes_iff_document_sample :
    Json.nesting spaced ≤ nestingLimit ∧ ∃ octets, Utf8.encode spaced = .ok octets ∧
      ∃ t, Utf8.encode t = .ok octets ∧ Json.Document t (.list spacedValues) := by
  have hdepth : Json.nesting spaced = 2 := rfl
  have hnesting : Json.nesting spaced ≤ nestingLimit := by
    rw [hdepth]
    decide
  have hencode : Utf8.encode spaced = .ok (asciiOctets spaced) := rfl
  have honly : ∀ t, Utf8.encode t = .ok (asciiOctets spaced) → Json.nesting t ≤ nestingLimit :=
    fun t ht => Utf8.encode_injective ht hencode ▸ hnesting
  exact ⟨hnesting, _, hencode, ((decodes_iff_document honly).1 _).mp decode_spaced⟩

end SealedCall.Snapshot
