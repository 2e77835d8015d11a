import SealedCall.Octets.Base64
import SealedCall.Proofs.Text.Digits

/-! # Base64 reads back

Three octets at a time become four groups of six bits and back, and each group is one character that
stands for it. The length of the data characters is never one more than a multiple of four, so the
padding that is missing always fits. Whatever is read, in turn, consists of data characters with
padding behind them that fits together with what is supplied.
-/

namespace SealedCall.Base64

theorem sextet?_character (alphabet : Alphabet) {n : Nat} (hn : n < 64) :
    sextet? alphabet (character alphabet n) = some n := by
  revert n
  cases alphabet <;> decide

theorem value_character_lt (alphabet : Alphabet) {n : Nat} (hn : n < 64) :
    (character alphabet n).value < 0x80 := by
  revert n
  cases alphabet <;> decide

theorem character_ne_padding (alphabet : Alphabet) {n : Nat} (hn : n < 64) :
    (character alphabet n).is '=' = false := by
  revert n
  cases alphabet <;> decide

theorem lt_of_mem_sextets {octets : Octets} {n : Nat} (hmem : n ∈ sextets octets) : n < 64 := by
  induction octets using sextets.induct with
  | case1 => simp [sextets] at hmem
  | case2 a =>
      have ha := a.toNat_lt
      simp only [sextets, List.mem_cons, List.not_mem_nil, or_false] at hmem
      omega
  | case3 a b =>
      have ha := a.toNat_lt
      have hb := b.toNat_lt
      simp only [sextets, List.mem_cons, List.not_mem_nil, or_false] at hmem
      omega
  | case4 a b c rest ih =>
      have ha := a.toNat_lt
      have hb := b.toNat_lt
      have hc := c.toNat_lt
      simp only [sextets, List.mem_cons] at hmem
      rcases hmem with h | h | h | h | h
      · omega
      · omega
      · omega
      · omega
      · exact ih h

theorem ofNat_eq {n : Nat} {a : UInt8} (hn : n = a.toNat) : UInt8.ofNat n = a := by
  subst hn
  exact UInt8.ofNat_toNat

/-- Octets come back from their groups of six bits. -/
theorem ofSextets_sextets (octets : Octets) : ofSextets (sextets octets) = some octets := by
  -- three octets at a time, as they are written; one or two may be left at the end
  induction octets using sextets.induct with
  | case1 => rfl
  | case2 a =>
      have hfirst : a.toNat / 4 * 4 + a.toNat % 4 * 16 / 16 = a.toNat := by omega
      rw [sextets, ofSextets, ofNat_eq hfirst]
  | case3 a b =>
      have ha := a.toNat_lt
      have hb := b.toNat_lt
      have hfirst : a.toNat / 4 * 4 + (a.toNat % 4 * 16 + b.toNat / 16) / 16 = a.toNat := by omega
      have hsecond : (a.toNat % 4 * 16 + b.toNat / 16) % 16 * 16 + b.toNat % 16 * 4 / 4 =
          b.toNat := by omega
      rw [sextets, ofSextets, ofNat_eq hfirst, ofNat_eq hsecond]
  | case4 a b c rest ih =>
      have ha := a.toNat_lt
      have hb := b.toNat_lt
      have hc := c.toNat_lt
      have hfirst : a.toNat / 4 * 4 + (a.toNat % 4 * 16 + b.toNat / 16) / 16 = a.toNat := by omega
      have hsecond : (a.toNat % 4 * 16 + b.toNat / 16) % 16 * 16 +
          (b.toNat % 16 * 4 + c.toNat / 64) / 4 = b.toNat := by omega
      have hthird : (b.toNat % 16 * 4 + c.toNat / 64) % 4 * 64 + c.toNat % 64 = c.toNat := by omega
      rw [sextets, ofSextets, ih, Option.map_some, ofNat_eq hfirst, ofNat_eq hsecond,
        ofNat_eq hthird]

theorem length_sextets (octets : Octets) :
    (sextets octets).length = (4 * octets.length + 2) / 3 := by
  induction octets using sextets.induct with
  | case1 => rfl
  | case2 a => simp [sextets]
  | case3 a b => simp [sextets]
  | case4 a b c rest ih =>
      simp only [sextets, List.length_cons, ih]
      omega

theorem length_encode (alphabet : Alphabet) (octets : Octets) :
    (encode alphabet octets).length = (4 * octets.length + 2) / 3 := by
  rw [encode, List.length_map, length_sextets]

theorem paddingFits_encode (alphabet : Alphabet) (octets : Octets) :
    paddingFits (encode alphabet octets).length (shortfall (encode alphabet octets)) = true := by
  rw [shortfall, length_encode]
  have hcases : (4 * octets.length + 2) / 3 % 4 = 0 ∨ (4 * octets.length + 2) / 3 % 4 = 2 ∨
      (4 * octets.length + 2) / 3 % 4 = 3 := by omega
  rw [paddingFits]
  rcases hcases with h | h | h
  · rw [h]
    simp
  · rw [h]
    rfl
  · rw [h]
    rfl

theorem mapM_sextet?_character (alphabet : Alphabet) {groups : List Nat}
    (hgroups : ∀ n ∈ groups, n < 64) :
    (groups.map (character alphabet)).mapM (sextet? alphabet) = some groups := by
  induction groups with
  | nil => rfl
  | cons n rest ih =>
      obtain ⟨hn, hrest⟩ := List.forall_mem_cons.mp hgroups
      rw [List.map_cons, List.mapM_cons, sextet?_character alphabet hn, ih hrest]
      rfl

theorem is_padding_of_mem_encode {alphabet : Alphabet} {octets : Octets} {point : CodePoint}
    (hmem : point ∈ encode alphabet octets) : point.is '=' = false := by
  obtain ⟨n, hn, rfl⟩ := List.mem_map.mp hmem
  exact character_ne_padding alphabet (lt_of_mem_sextets hn)

/-! ## What is read -/

section Reading

variable {alphabet : Alphabet} {data t : Text} {octets : Octets}

theorem is_padding_of_sextet? {point : CodePoint} {n : Nat}
    (hsextet : sextet? alphabet point = some n) : point.is '=' = false := by
  refine Bool.eq_false_iff.mpr fun his => ?_
  rw [CodePoint.eq_ofChar_of_is his] at hsextet
  cases alphabet <;> cases hsextet

theorem mapM_sextet?_cons {point : CodePoint} {groups : List Nat} :
    (point :: data).mapM (sextet? alphabet) = some groups ↔
      ∃ n rest, groups = n :: rest ∧ sextet? alphabet point = some n ∧
        data.mapM (sextet? alphabet) = some rest := by
  simp only [List.mapM_cons, Option.bind_eq_bind, Option.bind_eq_some_iff]
  constructor
  · rintro ⟨n, hn, rest, hrest, hgroups⟩
    exact ⟨n, rest, (Option.some.inj hgroups).symm, hn, hrest⟩
  · rintro ⟨n, rest, rfl, hn, hrest⟩
    exact ⟨n, hn, rest, hrest, rfl⟩

theorem is_padding_of_mapM_sextet? {groups : List Nat}
    (hgroups : data.mapM (sextet? alphabet) = some groups) :
    ∀ point ∈ data, point.is '=' = false := by
  induction data generalizing groups with
  | nil => exact List.forall_mem_nil _
  | cons point data ih =>
      obtain ⟨n, rest, -, hn, hrest⟩ := mapM_sextet?_cons.mp hgroups
      exact List.forall_mem_cons.mpr ⟨is_padding_of_sextet? hn, ih hrest⟩

theorem length_of_mapM_sextet? {groups : List Nat}
    (hgroups : data.mapM (sextet? alphabet) = some groups) : groups.length = data.length := by
  induction data generalizing groups with
  | nil =>
      cases hgroups
      rfl
  | cons point data ih =>
      obtain ⟨n, rest, rfl, -, hrest⟩ := mapM_sextet?_cons.mp hgroups
      rw [List.length_cons, List.length_cons, ih hrest]

theorem takeWhile_append_padding (hdata : ∀ point ∈ data, point.is '=' = false) (padding : Nat) :
    (data ++ Text.replicate padding '=').takeWhile (fun point => !point.is '=') = data := by
  rw [List.takeWhile_append_of_pos (by simpa using hdata), Text.replicate,
    List.takeWhile_replicate, if_neg (by decide), List.append_nil]

theorem dropWhile_append_padding (hdata : ∀ point ∈ data, point.is '=' = false) (padding : Nat) :
    (data ++ Text.replicate padding '=').dropWhile (fun point => !point.is '=') =
      Text.replicate padding '=' := by
  rw [List.dropWhile_append_of_pos (by simpa using hdata), Text.replicate,
    List.dropWhile_replicate, if_neg (by decide)]

theorem eq_replicate_of_all_padding (hall : t.all (·.is '=') = true) :
    t = Text.replicate t.length '=' := by
  refine List.eq_replicate_iff.mpr ⟨rfl, ?_⟩
  intro point hmem
  exact CodePoint.eq_ofChar_of_is (List.all_eq_true.mp hall point hmem)

/-- What is read consists of data characters with padding behind them. -/
theorem decode?_eq_some_iff :
    decode? alphabet t = some octets ↔
      ∃ data padding groups, t = data ++ Text.replicate padding '=' ∧
        paddingFits data.length padding = true ∧ data.mapM (sextet? alphabet) = some groups ∧
          ofSextets groups = some octets := by
  constructor
  · intro hdecoded
    rw [decode?] at hdecoded
    split at hdecoded
    · next hlegal =>
        obtain ⟨hall, hfits⟩ := Bool.and_eq_true_iff.mp hlegal
        split at hdecoded
        · next groups hgroups =>
            refine ⟨_, _, groups, ?_, hfits, hgroups, hdecoded⟩
            rw [← eq_replicate_of_all_padding hall, List.takeWhile_append_dropWhile]
        · cases hdecoded
    · cases hdecoded
  · rintro ⟨data, padding, groups, rfl, hfits, hgroups, hoctets⟩
    have hdata := is_padding_of_mapM_sextet? hgroups
    have hpadding : (Text.replicate padding '=').all (·.is '=') = true := by
      rw [Text.replicate, List.all_replicate]
      split
      · rfl
      · decide
    have hlength : (Text.replicate padding '=').length = padding := List.length_replicate
    rw [decode?]
    simp only [takeWhile_append_padding hdata, dropWhile_append_padding hdata, hpadding, hlength,
      hfits, Bool.and_self, if_true, hgroups, hoctets]

/-- A text that more padding completes has padding of its own, or none, behind the same data. -/
theorem exists_padding {supplied total : Nat} (hdata : ∀ point ∈ data, point.is '=' = false)
    (htext : t ++ Text.replicate supplied '=' = data ++ Text.replicate total '=') :
    ∃ padding, t = data ++ Text.replicate padding '=' ∧ padding + supplied = total := by
  rcases List.append_eq_append_iff.mp htext with ⟨extra, rfl, hextra⟩ | ⟨extra, rfl, hextra⟩
  · -- data beyond the end of the text would have to be padding
    cases extra with
    | nil =>
        have hcount := congrArg List.length hextra
        simp only [Text.replicate, List.length_replicate, List.nil_append] at hcount
        exact ⟨0, by simp [Text.replicate], by omega⟩
    | cons point rest =>
        have hmem : point ∈ Text.replicate supplied '=' := hextra ▸ List.mem_cons_self
        have his := hdata point (List.mem_append_right t List.mem_cons_self)
        rw [List.eq_of_mem_replicate hmem] at his
        cases his
  · obtain ⟨hcount, hreplicate, -⟩ := List.replicate_eq_append_iff.mp hextra
    rw [Text.replicate, List.length_replicate] at hcount
    exact ⟨extra.length, by rw [Text.replicate, ← hreplicate], hcount⟩

/-- Where the missing padding is supplied, the padding of the text counts together with it. -/
theorem decodeUnpadded?_eq_some_iff :
    decodeUnpadded? alphabet t = some octets ↔
      ∃ data padding groups, t = data ++ Text.replicate padding '=' ∧
        paddingFits data.length (padding + shortfall t) = true ∧
          data.mapM (sextet? alphabet) = some groups ∧ ofSextets groups = some octets := by
  rw [decodeUnpadded?, decode?_eq_some_iff]
  constructor
  · rintro ⟨data, total, groups, htext, hfits, hgroups, hoctets⟩
    obtain ⟨padding, ht, rfl⟩ := exists_padding (is_padding_of_mapM_sextet? hgroups) htext
    exact ⟨data, padding, groups, ht, hfits, hgroups, hoctets⟩
  · rintro ⟨data, padding, groups, ht, hfits, hgroups, hoctets⟩
    refine ⟨data, padding + shortfall t, groups, ?_, hfits, hgroups, hoctets⟩
    have hsum : Text.replicate (padding + shortfall t) '=' =
        Text.replicate padding '=' ++ Text.replicate (shortfall t) '=' :=
      List.replicate_append_replicate.symm
    rw [hsum, ← List.append_assoc, ← ht, padded]

end Reading

/-- Encoded octets read back. -/
theorem decodeUnpadded?_encode (alphabet : Alphabet) (octets : Octets) :
    decodeUnpadded? alphabet (encode alphabet octets) = some octets := by
  refine decodeUnpadded?_eq_some_iff.mpr ⟨encode alphabet octets, 0, sextets octets,
    (List.append_nil _).symm, ?_, ?_, ofSextets_sextets octets⟩
  · rw [Nat.zero_add]
    exact paddingFits_encode alphabet octets
  · exact mapM_sextet?_character alphabet fun n hmem => lt_of_mem_sextets hmem

theorem encode_ne_nil (alphabet : Alphabet) {octets : Octets} (hoctets : octets ≠ []) :
    encode alphabet octets ≠ [] := by
  intro hnil
  have hlength := length_encode alphabet octets
  have hpos := List.length_pos_iff.mpr hoctets
  rw [hnil, List.length_nil] at hlength
  omega

theorem hasSurrogate_encode (alphabet : Alphabet) (octets : Octets) :
    (encode alphabet octets).hasSurrogate = false := by
  rw [Text.hasSurrogate, List.any_eq_false]
  intro point hmem
  obtain ⟨n, hn, rfl⟩ := List.mem_map.mp hmem
  have hvalue := value_character_lt alphabet (lt_of_mem_sextets hn)
  rw [Bool.not_eq_true, CodePoint.isSurrogate, CodePoint.within_eq_false_iff]
  omega

theorem ofSextets_ne_nil {groups : List Nat} {octets : Octets} (hgroups : groups ≠ [])
    (hdecoded : ofSextets groups = some octets) : octets ≠ [] := by
  rintro rfl
  cases groups using ofSextets.induct with
  | case1 => exact hgroups rfl
  | case2 a => cases hdecoded
  | case3 a b => cases hdecoded
  | case4 a b c => cases hdecoded
  | case5 a b c d rest =>
      rw [ofSextets] at hdecoded
      obtain ⟨octets, -, hcons⟩ := Option.map_eq_some_iff.mp hdecoded
      cases hcons

/-- Padding needs data characters before it, and data characters come in groups that hold octets: a
text that reads as no octets at all is empty. -/
theorem decode?_ne_nil {alphabet : Alphabet} {t : Text} {octets : Octets} (ht : t ≠ [])
    (hdecoded : decode? alphabet t = some octets) : octets ≠ [] := by
  obtain ⟨data, padding, groups, rfl, hfits, hgroups, hoctets⟩ := decode?_eq_some_iff.mp hdecoded
  refine ofSextets_ne_nil ?_ hoctets
  rintro rfl
  cases List.eq_nil_of_length_eq_zero (length_of_mapM_sextet? hgroups).symm
  -- without data everything is padding, and only no padding fits behind no data
  have hpadding : padding = 0 := by simpa [paddingFits] using hfits
  subst hpadding
  exact ht rfl

/-- A text that is not empty is never read as no octets. -/
theorem decodeUnpadded?_ne_nil {alphabet : Alphabet} {t : Text} {octets : Octets} (ht : t ≠ [])
    (hdecoded : decodeUnpadded? alphabet t = some octets) : octets ≠ [] := by
  refine decode?_ne_nil ?_ hdecoded
  rw [padded]
  exact List.append_ne_nil_of_left_ne_nil ht _

end SealedCall.Base64
