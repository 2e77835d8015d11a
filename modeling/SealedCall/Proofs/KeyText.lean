import SealedCall.Key
import SealedCall.Proofs.Octets.Base64

/-! # Key texts

A key text is read or refused, and what is wrong with it is always its key material. A key comes
back from every way to spell it: in either alphabet, with its padding or without, and between any
blanks. The alphabet is guessed from the characters that occur, which does no harm: where none of
those that tell the alphabets apart occurs, the two spellings are one and the same text.
-/

namespace SealedCall

namespace Text

variable {blank : CodePoint → Bool} {before t behind : Text}

theorem trimStart_append (hbefore : ∀ point ∈ before, blank point = true) :
    trimStart blank (before ++ t) = trimStart blank t := by
  rw [trimStart, List.dropWhile_append_of_pos hbefore]
  rfl

theorem trimStart_eq_self (ht : ∀ point ∈ t, blank point = false) (hne : t ≠ []) :
    trimStart blank (t ++ behind) = t ++ behind := by
  cases t with
  | nil => exact absurd rfl hne
  | cons first rest =>
      have hfirst := ht first List.mem_cons_self
      rw [trimStart, List.cons_append, List.dropWhile_cons_of_neg (by rw [hfirst]; decide)]

/-- Trimming takes what is blank from both ends, up to what is not. -/
theorem trim_eq (hbefore : ∀ point ∈ before, blank point = true)
    (ht : ∀ point ∈ t, blank point = false) (hne : t ≠ [])
    (hbehind : ∀ point ∈ behind, blank point = true) :
    trim blank (before ++ t ++ behind) = t := by
  have hreversed : ∀ point ∈ t.reverse, blank point = false := by
    intro point hmem
    exact ht point (List.mem_reverse.mp hmem)
  have hback : trimStart blank (behind.reverse ++ t.reverse) = t.reverse := by
    rw [trimStart_append fun point hmem => hbehind point (List.mem_reverse.mp hmem)]
    have hself : trimStart blank (t.reverse ++ []) = t.reverse ++ [] :=
      trimStart_eq_self hreversed (by simpa using hne)
    simpa using hself
  rw [trim, List.append_assoc, trimStart_append hbefore, trimStart_eq_self ht hne,
    List.reverse_append, hback, List.reverse_reverse]

end Text

namespace Base64

theorem isBlank_character (alphabet : Alphabet) {n : Nat} (hn : n < 64) :
    (character alphabet n).isBlank = false := by
  revert n
  cases alphabet <;> decide

/-- Only the last two characters of the URL-safe alphabet tell it from the standard one. -/
theorem character_urlSafe_eq {n : Nat} (hn : n < 64)
    (hplain : ((character .urlSafe n).is '-' || (character .urlSafe n).is '_') = false) :
    character .urlSafe n = character .standard n := by
  revert n
  decide

theorem character_standard_plain {n : Nat} (hn : n < 64) :
    ((character .standard n).is '-' || (character .standard n).is '_') = false := by
  revert n
  decide

theorem length_padded (t : Text) : (padded t).length = t.length + shortfall t := by
  rw [padded, List.length_append, Text.replicate, List.length_replicate]

theorem padded_padded (t : Text) : padded (padded t) = padded t := by
  have hfull : shortfall (padded t) = 0 := by
    rw [shortfall, length_padded, shortfall]
    omega
  rw [padded, hfull, Text.replicate, List.replicate_zero, List.append_nil]

/-- Padding that is there already is not supplied a second time. -/
theorem decodeUnpadded?_padded (alphabet : Alphabet) (t : Text) :
    decodeUnpadded? alphabet (padded t) = decodeUnpadded? alphabet t := by
  rw [decodeUnpadded?, decodeUnpadded?, padded_padded]

end Base64

namespace Key

open Base64

/-- A spelling of a key: the data characters of its octets, with or without the padding. -/
def spelling (alphabet : Alphabet) (isPadded : Bool) (key : Key) : Text :=
  if isPadded then padded (Base64.encode alphabet key.octets)
  else Base64.encode alphabet key.octets

theorem decodeUnpadded?_spelling (alphabet read : Alphabet) (isPadded : Bool) (key : Key) :
    decodeUnpadded? read (key.spelling alphabet isPadded) =
      decodeUnpadded? read (Base64.encode alphabet key.octets) := by
  cases isPadded with
  | false => rfl
  | true => exact decodeUnpadded?_padded read _

/-- What a spelling consists of. -/
theorem mem_spelling {alphabet : Alphabet} {isPadded : Bool} {key : Key} {point : CodePoint}
    (hmem : point ∈ key.spelling alphabet isPadded) :
    (∃ n < 64, point = character alphabet n) ∨ point = CodePoint.ofChar '=' := by
  have hdata : point ∈ Base64.encode alphabet key.octets →
      ∃ n < 64, point = character alphabet n := by
    intro hencoded
    obtain ⟨n, hn, rfl⟩ := List.mem_map.mp hencoded
    exact ⟨n, lt_of_mem_sextets hn, rfl⟩
  cases isPadded with
  | false => exact .inl (hdata hmem)
  | true =>
      rcases List.mem_append.mp hmem with hencoded | hpadding
      · exact .inl (hdata hencoded)
      · exact .inr (List.eq_of_mem_replicate hpadding)

theorem isBlank_of_mem_spelling {alphabet : Alphabet} {isPadded : Bool} {key : Key}
    {point : CodePoint} (hmem : point ∈ key.spelling alphabet isPadded) :
    point.isBlank = false := by
  rcases mem_spelling hmem with ⟨n, hn, rfl⟩ | rfl
  · exact isBlank_character alphabet hn
  · decide

theorem spelling_ne_nil (alphabet : Alphabet) (isPadded : Bool) (key : Key) :
    key.spelling alphabet isPadded ≠ [] := by
  have hoctets : key.octets ≠ [] := by
    intro hnil
    have hlength := key.length_eq
    rw [hnil] at hlength
    cases hlength
  have hdata := encode_ne_nil alphabet hoctets
  cases isPadded with
  | false => exact hdata
  | true => exact List.append_ne_nil_of_left_ne_nil hdata _

theorem strip_spelling (alphabet : Alphabet) (isPadded : Bool) (key : Key) {before behind : Text}
    (hbefore : ∀ point ∈ before, point.isBlank = true)
    (hbehind : ∀ point ∈ behind, point.isBlank = true) :
    (before ++ key.spelling alphabet isPadded ++ behind).strip = key.spelling alphabet isPadded :=
  Text.trim_eq hbefore (fun _ hmem => isBlank_of_mem_spelling hmem)
    (spelling_ne_nil alphabet isPadded key) hbehind

theorem alphabetOf_eq_standard_iff (t : Text) :
    alphabetOf t = .standard ↔ ∀ point ∈ t, (point.is '-' || point.is '_') = false := by
  rw [alphabetOf]
  cases hany : t.any fun point => point.is '-' || point.is '_' with
  | true =>
      obtain ⟨point, hmem, hpoint⟩ := List.any_eq_true.mp hany
      refine iff_of_false nofun fun hplain => ?_
      rw [hplain point hmem] at hpoint
      cases hpoint
  | false =>
      refine iff_of_true rfl fun point hmem => ?_
      exact Bool.not_eq_true _ ▸ List.any_eq_false.mp hany point hmem

theorem alphabetOf_spelling_standard (isPadded : Bool) (key : Key) :
    alphabetOf (key.spelling .standard isPadded) = .standard := by
  refine (alphabetOf_eq_standard_iff _).mpr fun point hmem => ?_
  rcases mem_spelling hmem with ⟨n, hn, rfl⟩ | rfl
  · exact character_standard_plain hn
  · decide

/-- A spelling in the URL-safe alphabet that is taken for standard is the standard one. -/
theorem encode_urlSafe_eq {isPadded : Bool} {key : Key}
    (htaken : alphabetOf (key.spelling .urlSafe isPadded) = .standard) :
    Base64.encode .urlSafe key.octets = Base64.encode .standard key.octets := by
  refine List.map_congr_left fun n hn => character_urlSafe_eq (lt_of_mem_sextets hn) ?_
  refine (alphabetOf_eq_standard_iff _).mp htaken _ ?_
  have hencoded : character .urlSafe n ∈ Base64.encode .urlSafe key.octets :=
    List.mem_map_of_mem hn
  cases isPadded with
  | false => exact hencoded
  | true => exact List.mem_append_left _ hencoded

/-- The alphabet that a spelling is taken for reads it back. -/
theorem read_spelling (alphabet : Alphabet) (isPadded : Bool) (key : Key) :
    decodeUnpadded? (alphabetOf (key.spelling alphabet isPadded))
      (key.spelling alphabet isPadded) = some key.octets := by
  rw [decodeUnpadded?_spelling]
  cases alphabet with
  | standard => rw [alphabetOf_spelling_standard, decodeUnpadded?_encode]
  | urlSafe =>
      cases htaken : alphabetOf (key.spelling .urlSafe isPadded) with
      | standard => rw [encode_urlSafe_eq htaken, decodeUnpadded?_encode]
      | urlSafe => rw [decodeUnpadded?_encode]

theorem ofOctets_octets (key : Key) : ofOctets key.octets = .ok key :=
  dif_pos key.length_eq

theorem ofOctets_error {octets : Octets} {failure : Failure}
    (hrefused : ofOctets octets = .error failure) : failure = .keyMaterial .wrongLength := by
  rw [ofOctets] at hrefused
  split at hrefused
  · cases hrefused
  · cases hrefused
    rfl

/-- A key text is refused for its key material and for nothing else. -/
theorem decode_error {raw : Text} {failure : Failure} (hrefused : decode raw = .error failure) :
    ∃ fault, failure = .keyMaterial fault := by
  simp only [decode] at hrefused
  split at hrefused
  · exact ⟨_, ofOctets_error hrefused⟩
  · cases hrefused
    exact ⟨_, rfl⟩

theorem decode_spelling (alphabet : Alphabet) (isPadded : Bool) (key : Key) {before behind : Text}
    (hbefore : ∀ point ∈ before, point.isBlank = true)
    (hbehind : ∀ point ∈ behind, point.isBlank = true) :
    decode (before ++ key.spelling alphabet isPadded ++ behind) = .ok key := by
  simp only [decode, strip_spelling alphabet isPadded key hbefore hbehind, read_spelling,
    ofOctets_octets]

/-- Every text is read as a key of 32 octets or refused for its key material. A key is read from
each of its spellings between any blanks, and so from its own key text. -/
theorem text_read_or_refused :
    (∀ raw : Text,
      (∃ key : Key, decode raw = .ok key ∧ key.octets.length = 32) ∨
        ∃ fault : KeyFault, decode raw = .error (.keyMaterial fault)) ∧
    (∀ (key : Key) (alphabet : Alphabet) (isPadded : Bool) (before behind : Text),
      (∀ point ∈ before, point.isBlank = true) → (∀ point ∈ behind, point.isBlank = true) →
        decode (before ++ key.spelling alphabet isPadded ++ behind) = .ok key) ∧
    ∀ key : Key, decode (encode key) = .ok key := by
  refine ⟨fun raw => ?_, fun key alphabet isPadded before behind hbefore hbehind =>
    decode_spelling alphabet isPadded key hbefore hbehind, fun key => ?_⟩
  · cases hread : decode raw with
    | ok key => exact .inl ⟨key, rfl, key.length_eq⟩
    | error failure =>
        obtain ⟨fault, rfl⟩ := decode_error hread
        exact .inr ⟨fault, rfl⟩
  · have hblank : ∀ point ∈ ([] : Text), point.isBlank = true := nofun
    have hencode : encode key = [] ++ key.spelling .standard true ++ [] :=
      (List.append_nil _).symm
    rw [hencode, decode_spelling .standard true key hblank hblank]

/-- A key whose spellings in the two alphabets differ comes back from the URL-safe one without its
padding, between a tab, a space and a line end. -/
theorem text_read_or_refused_between_blanks :
    decode (Text.of "\t " ++
        Text.of "-_v7-_v7-_v7-_v7-_v7-_v7-_v7-_v7-_v7-_v7-_s" ++ Text.of "\n") =
      .ok ⟨List.replicate 32 0xFB, List.length_replicate⟩ := by
  have hspelling : Text.of "-_v7-_v7-_v7-_v7-_v7-_v7-_v7-_v7-_v7-_v7-_s" =
      spelling .urlSafe false ⟨List.replicate 32 0xFB, List.length_replicate⟩ := by decide
  rw [hspelling]
  exact text_read_or_refused.2.1 _ .urlSafe false _ _ (by decide) (by decide)

end Key

end SealedCall
