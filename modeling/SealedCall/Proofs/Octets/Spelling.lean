import SealedCall.Proofs.Octets.Base64

/-! # Spellings of octets

Octets are written as one text but read from several. Padding may stand behind the data characters,
the two characters that only the standard alphabet has may stand for those of the URL-safe one, and
the bits that the last data character has to spare may be anything. These are the spellings of the
octets, and a text is read as them exactly when it is one.
-/

namespace SealedCall

/-! ## Equal but for the last -/

/-- Two lists that are equal but for their last members, and those are related. -/
inductive EqualButLast {α : Type} (related : α → α → Prop) : List α → List α → Prop
  | nil : EqualButLast related [] []
  | last {a b : α} (hlast : related a b) : EqualButLast related [a] [b]
  | cons (a : α) {left right : List α} (hrest : EqualButLast related left right) :
      EqualButLast related (a :: left) (a :: right)

namespace EqualButLast

variable {α : Type} {related : α → α → Prop} {left right : List α}

theorem length_eq (hequal : EqualButLast related left right) : left.length = right.length := by
  induction hequal with
  | nil => rfl
  | last => rfl
  | cons a _ ih => rw [List.length_cons, List.length_cons, ih]

theorem of_cons {b : α} (hequal : EqualButLast related left (b :: right)) :
    ∃ a rest, left = a :: rest ∧
      (related a b ∧ rest = [] ∧ right = [] ∨ a = b ∧ EqualButLast related rest right) := by
  cases hequal with
  | last hlast => exact ⟨_, [], rfl, .inl ⟨hlast, rfl, rfl⟩⟩
  | cons _ hrest => exact ⟨b, _, rfl, .inr ⟨rfl, hrest⟩⟩

theorem of_cons_cons {b c : α} (hequal : EqualButLast related left (b :: c :: right)) :
    ∃ rest, left = b :: rest ∧ EqualButLast related rest (c :: right) := by
  cases hequal with
  | cons _ hrest => exact ⟨_, rfl, hrest⟩

theorem of_singleton {b : α} (hequal : EqualButLast related left [b]) (hrefl : related b b) :
    ∃ a, left = [a] ∧ related a b := by
  obtain ⟨a, rest, rfl, ⟨hlast, rfl, -⟩ | ⟨rfl, hrest⟩⟩ := hequal.of_cons
  · exact ⟨a, rfl, hlast⟩
  · cases hrest
    exact ⟨a, rfl, hrefl⟩

end EqualButLast

namespace Base64

/-! ## What a spelling is -/

/-- The characters in which octets are written: letters, digits, hyphen and underscore. -/
def isUrlSafe (point : CodePoint) : Bool :=
  point.within 0x41 0x5A || point.within 0x61 0x7A || point.within 0x30 0x39 || point.is '-' ||
    point.is '_'

/-- The character that is written where a data character is read: a hyphen for a plus sign, an
underscore for a slash, and every other character for itself. -/
def urlSafeForm (point : CodePoint) : CodePoint :=
  if point.is '+' then CodePoint.ofChar '-'
  else if point.is '/' then CodePoint.ofChar '_'
  else point

/-- How many bits the last data character of octets has to spare: four where one octet is left for
the last group, two where two are left. -/
def spareBits (octets : Octets) : Nat :=
  match octets.length % 3 with
  | 1 => 4
  | 2 => 2
  | _ => 0

/-- Two numbers that differ in their lowest bits only, as many as given. -/
def SameAbove (bits m n : Nat) : Prop := m / 2 ^ bits = n / 2 ^ bits

/-- Two characters of the alphabet whose six bits differ in the lowest only, as many as given. -/
def AlikeAbove (bits : Nat) (a b : CodePoint) : Prop :=
  ∃ m n, m < 64 ∧ n < 64 ∧ a = character .urlSafe m ∧ b = character .urlSafe n ∧
    SameAbove bits m n

/-- How much padding may stand behind the data characters of octets: none where there are no data
characters, any amount behind a full last group, and otherwise at most what the last group lacks. -/
def PaddingMayFollow (octets : Octets) (padding : Nat) : Prop :=
  match octets.length % 3 with
  | 0 => octets = [] → padding = 0
  | left => left + padding ≤ 3

/-- Data characters and an amount of padding that spell octets. There are as many data characters
as are written for the octets, and they are the written ones but for the alphabet and for the spare
bits of the last. -/
structure Spelling (octets : Octets) (data : Text) (padding : Nat) : Prop where
  data_characters : ∀ point ∈ data, isUrlSafe (urlSafeForm point) = true
  length_eq : data.length = (encode .urlSafe octets).length
  written : EqualButLast (AlikeAbove (spareBits octets)) (data.map urlSafeForm)
    (encode .urlSafe octets)
  padding_follows : PaddingMayFollow octets padding

/-- A text that spells octets: data characters, and nothing but padding behind them. -/
def Spells (t : Text) (octets : Octets) : Prop :=
  ∃ data padding, t = data ++ Text.replicate padding '=' ∧ Spelling octets data padding

/-! ## Characters -/

theorem isUrlSafe_character {n : Nat} (hn : n < 64) : isUrlSafe (character .urlSafe n) = true := by
  revert n
  decide

theorem isUrlSafe_of_mem_encode {octets : Octets} {point : CodePoint}
    (hmem : point ∈ encode .urlSafe octets) : isUrlSafe point = true := by
  obtain ⟨n, hn, rfl⟩ := List.mem_map.mp hmem
  exact isUrlSafe_character (lt_of_mem_sextets hn)

theorem sextet?_urlSafeForm (point : CodePoint) :
    sextet? .urlSafe (urlSafeForm point) = sextet? .urlSafe point := by
  rw [urlSafeForm]
  split
  · next hplus =>
      rw [CodePoint.eq_ofChar_of_is hplus]
      decide
  · split
    · next hslash =>
        rw [CodePoint.eq_ofChar_of_is hslash]
        decide
    · rfl

/-- Nothing beyond ASCII is a data character. -/
theorem value_lt_of_sextet? {point : CodePoint} {n : Nat}
    (hsextet : sextet? .urlSafe point = some n) : point.value < 0x80 := by
  refine Nat.lt_of_not_le fun hbeyond => ?_
  have hwithin : ∀ low high, high < 0x80 → point.within low high = false := by
    intro low high hhigh
    rw [CodePoint.within_eq_false_iff]
    omega
  have his : ∀ c : Char, c.toNat < 0x80 → point.is c = false := by
    intro c hc
    rw [CodePoint.is_eq_false_iff]
    omega
  have hnone : sextet? .urlSafe point = none := by
    simp (disch := decide) [sextet?, hwithin, his]
  rw [hnone] at hsextet
  cases hsextet

theorem urlSafeForm_of_sextet? {point : CodePoint} {n : Nat}
    (hsextet : sextet? .urlSafe point = some n) :
    n < 64 ∧ urlSafeForm point = character .urlSafe n := by
  have htable : ∀ value, (h : value < 0x80) →
      ∀ n ∈ sextet? .urlSafe ⟨value, Nat.lt_trans h (by decide)⟩,
        n < 64 ∧ urlSafeForm ⟨value, Nat.lt_trans h (by decide)⟩ = character .urlSafe n := by
    decide
  exact htable point.value (value_lt_of_sextet? hsextet) n hsextet

theorem sextet?_eq_some_iff {point : CodePoint} {n : Nat} :
    sextet? .urlSafe point = some n ↔ n < 64 ∧ urlSafeForm point = character .urlSafe n := by
  constructor
  · exact urlSafeForm_of_sextet?
  · rintro ⟨hn, hform⟩
    rw [← sextet?_urlSafeForm, hform, sextet?_character .urlSafe hn]

theorem mapM_sextet?_eq_some_iff {data : Text} {groups : List Nat} :
    data.mapM (sextet? .urlSafe) = some groups ↔
      (∀ n ∈ groups, n < 64) ∧ data.map urlSafeForm = groups.map (character .urlSafe) := by
  induction data generalizing groups with
  | nil => cases groups <;> simp
  | cons point data ih =>
      rw [mapM_sextet?_cons]
      constructor
      · rintro ⟨n, rest, rfl, hn, hrest⟩
        obtain ⟨hbound, hform⟩ := sextet?_eq_some_iff.mp hn
        obtain ⟨hbounds, hforms⟩ := ih.mp hrest
        rw [List.map_cons, List.map_cons, hform, hforms]
        exact ⟨List.forall_mem_cons.mpr ⟨hbound, hbounds⟩, rfl⟩
      · rintro ⟨hbounds, hforms⟩
        obtain ⟨n, rest, rfl, hform, hforms⟩ := List.map_eq_cons_iff.mp hforms.symm
        obtain ⟨hbound, hbounds⟩ := List.forall_mem_cons.mp hbounds
        exact ⟨n, rest, rfl, sextet?_eq_some_iff.mpr ⟨hbound, hform.symm⟩,
          ih.mpr ⟨hbounds, hforms.symm⟩⟩

/-! ## Groups of six bits -/

theorem spareBits_cons (a b c : UInt8) (rest : Octets) :
    spareBits (a :: b :: c :: rest) = spareBits rest := by
  have hlength : (a :: b :: c :: rest).length % 3 = rest.length % 3 := Nat.add_mod_right _ 3
  rw [spareBits, spareBits, hlength]

theorem sextets_eq_nil_iff {octets : Octets} : sextets octets = [] ↔ octets = [] := by
  constructor
  · intro hnil
    have hlength := length_sextets octets
    rw [hnil, List.length_nil] at hlength
    exact List.eq_nil_of_length_eq_zero (by omega)
  · rintro rfl
    rfl

theorem toNat_ofNat {n : Nat} (hn : n < 256) : (UInt8.ofNat n).toNat = n :=
  UInt8.toNat_ofNat_of_lt' hn

theorem sextets_pair {a b : Nat} (ha : a < 64) (hb : b < 64) :
    sextets [UInt8.ofNat (a * 4 + b / 16)] = [a, b / 16 * 16] := by
  have hoctet : (UInt8.ofNat (a * 4 + b / 16)).toNat = a * 4 + b / 16 := toNat_ofNat (by omega)
  have hfirst : (a * 4 + b / 16) / 4 = a := by omega
  have hsecond : (a * 4 + b / 16) % 4 = b / 16 := by omega
  rw [sextets, hoctet, hfirst, hsecond]

theorem sextets_triple {a b c : Nat} (ha : a < 64) (hb : b < 64) (hc : c < 64) :
    sextets [UInt8.ofNat (a * 4 + b / 16), UInt8.ofNat (b % 16 * 16 + c / 4)] =
      [a, b, c / 4 * 4] := by
  have hoctet : (UInt8.ofNat (a * 4 + b / 16)).toNat = a * 4 + b / 16 := toNat_ofNat (by omega)
  have hnext : (UInt8.ofNat (b % 16 * 16 + c / 4)).toNat = b % 16 * 16 + c / 4 :=
    toNat_ofNat (by omega)
  have hfirst : (a * 4 + b / 16) / 4 = a := by omega
  have hsecond : (a * 4 + b / 16) % 4 * 16 + (b % 16 * 16 + c / 4) / 16 = b := by omega
  have hthird : (b % 16 * 16 + c / 4) % 16 = c / 4 := by omega
  rw [sextets, hoctet, hnext, hfirst, hsecond, hthird]

theorem sextets_group {a b c d : Nat} (ha : a < 64) (hb : b < 64) (hc : c < 64) (hd : d < 64)
    (rest : Octets) :
    sextets (UInt8.ofNat (a * 4 + b / 16) :: UInt8.ofNat (b % 16 * 16 + c / 4) ::
      UInt8.ofNat (c % 4 * 64 + d) :: rest) = a :: b :: c :: d :: sextets rest := by
  have hoctet : (UInt8.ofNat (a * 4 + b / 16)).toNat = a * 4 + b / 16 := toNat_ofNat (by omega)
  have hnext : (UInt8.ofNat (b % 16 * 16 + c / 4)).toNat = b % 16 * 16 + c / 4 :=
    toNat_ofNat (by omega)
  have hlast : (UInt8.ofNat (c % 4 * 64 + d)).toNat = c % 4 * 64 + d := toNat_ofNat (by omega)
  have hfirst : (a * 4 + b / 16) / 4 = a := by omega
  have hsecond : (a * 4 + b / 16) % 4 * 16 + (b % 16 * 16 + c / 4) / 16 = b := by omega
  have hthird : (b % 16 * 16 + c / 4) % 16 * 4 + (c % 4 * 64 + d) / 64 = c := by omega
  have hfourth : (c % 4 * 64 + d) % 64 = d := by omega
  rw [sextets, hoctet, hnext, hlast, hfirst, hsecond, hthird, hfourth]

/-- Groups that hold octets are the groups of these octets, up to the spare bits. -/
theorem equalButLast_of_ofSextets {groups : List Nat} {octets : Octets}
    (hgroups : ∀ n ∈ groups, n < 64) (hoctets : ofSextets groups = some octets) :
    EqualButLast (SameAbove (spareBits octets)) groups (sextets octets) := by
  -- four groups at a time, as they are read; only two or three left at the end have spare bits
  induction groups using ofSextets.induct generalizing octets with
  | case1 =>
      cases hoctets
      exact .nil
  | case2 a => cases hoctets
  | case3 a b =>
      cases hoctets
      simp only [List.forall_mem_cons] at hgroups
      rw [sextets_pair hgroups.1 hgroups.2.1]
      have hspare : b / 16 = b / 16 * 16 / 16 := by omega
      exact .cons a (.last hspare)
  | case4 a b c =>
      cases hoctets
      simp only [List.forall_mem_cons] at hgroups
      rw [sextets_triple hgroups.1 hgroups.2.1 hgroups.2.2.1]
      have hspare : c / 4 = c / 4 * 4 / 4 := by omega
      exact .cons a (.cons b (.last hspare))
  | case5 a b c d rest ih =>
      obtain ⟨held, hheld, hcons⟩ := Option.map_eq_some_iff.mp hoctets
      cases hcons
      simp only [List.forall_mem_cons] at hgroups
      obtain ⟨ha, hb, hc, hd, hrest⟩ := hgroups
      rw [sextets_group ha hb hc hd, spareBits_cons]
      exact .cons a (.cons b (.cons c (.cons d (ih hrest hheld))))

/-- Spare bits are not looked at. -/
theorem ofSextets_of_equalButLast {groups : List Nat} {octets : Octets}
    (hequal : EqualButLast (SameAbove (spareBits octets)) groups (sextets octets)) :
    ofSextets groups = ofSextets (sextets octets) := by
  induction octets using sextets.induct generalizing groups with
  | case1 =>
      cases hequal
      rfl
  | case2 a =>
      obtain ⟨tail, rfl, htail⟩ := hequal.of_cons_cons
      obtain ⟨second, rfl, hsame⟩ := htail.of_singleton rfl
      have hsecond : second / 16 = a.toNat % 4 * 16 / 16 := hsame
      rw [sextets, ofSextets, ofSextets, hsecond]
  | case3 a b =>
      obtain ⟨fromSecond, rfl, hfromSecond⟩ := hequal.of_cons_cons
      obtain ⟨fromThird, rfl, hfromThird⟩ := hfromSecond.of_cons_cons
      obtain ⟨third, rfl, hsame⟩ := hfromThird.of_singleton rfl
      have hthird : third / 4 = b.toNat % 16 * 4 / 4 := hsame
      rw [sextets, ofSextets, ofSextets, hthird]
  | case4 a b c rest ih =>
      rw [spareBits_cons] at hequal
      obtain ⟨fromSecond, rfl, hfromSecond⟩ := hequal.of_cons_cons
      obtain ⟨fromThird, rfl, hfromThird⟩ := hfromSecond.of_cons_cons
      obtain ⟨fromFourth, rfl, hfromFourth⟩ := hfromThird.of_cons_cons
      obtain ⟨fourth, tail, rfl, ⟨hsame, rfl, hnil⟩ | ⟨rfl, htail⟩⟩ := hfromFourth.of_cons
      · -- three octets end the text, and a full group has no bits to spare
        cases sextets_eq_nil_iff.mp hnil
        have hfourth : fourth / 1 = c.toNat % 64 / 1 := hsame
        rw [Nat.div_one, Nat.div_one] at hfourth
        rw [hfourth]
        rfl
      · rw [sextets, ofSextets, ofSextets, ih htail]

theorem ofSextets_eq_some_iff {groups : List Nat} {octets : Octets}
    (hgroups : ∀ n ∈ groups, n < 64) :
    ofSextets groups = some octets ↔
      EqualButLast (SameAbove (spareBits octets)) groups (sextets octets) := by
  constructor
  · exact equalButLast_of_ofSextets hgroups
  · intro hequal
    rw [ofSextets_of_equalButLast hequal, ofSextets_sextets]

/-! ## Groups and their characters -/

theorem equalButLast_map {bits : Nat} {groups written : List Nat}
    (hgroups : ∀ n ∈ groups, n < 64) (hwritten : ∀ n ∈ written, n < 64)
    (hequal : EqualButLast (SameAbove bits) groups written) :
    EqualButLast (AlikeAbove bits) (groups.map (character .urlSafe))
      (written.map (character .urlSafe)) := by
  induction hequal with
  | nil => exact .nil
  | @last m n hlast =>
      exact .last ⟨m, n, hgroups m List.mem_cons_self, hwritten n List.mem_cons_self, rfl, rfl,
        hlast⟩
  | cons n _ ih =>
      exact .cons _ (ih (List.forall_mem_cons.mp hgroups).2 (List.forall_mem_cons.mp hwritten).2)

theorem exists_groups {bits : Nat} {spelled : Text} {written : List Nat}
    (hwritten : ∀ n ∈ written, n < 64)
    (hequal : EqualButLast (AlikeAbove bits) spelled (written.map (character .urlSafe))) :
    ∃ groups, (∀ n ∈ groups, n < 64) ∧ spelled = groups.map (character .urlSafe) ∧
      EqualButLast (SameAbove bits) groups written := by
  induction written generalizing spelled with
  | nil =>
      cases hequal
      exact ⟨[], List.forall_mem_nil _, rfl, .nil⟩
  | cons n rest ih =>
      obtain ⟨hn, hrest⟩ := List.forall_mem_cons.mp hwritten
      obtain ⟨point, tail, rfl, ⟨hlast, rfl, hnil⟩ | ⟨rfl, htail⟩⟩ := hequal.of_cons
      · obtain ⟨m, k, hm, hk, rfl, hcharacter, hsame⟩ := hlast
        cases List.map_eq_nil_iff.mp hnil
        have hkn : k = n := by
          have hread := sextet?_character .urlSafe hn
          rw [hcharacter, sextet?_character .urlSafe hk] at hread
          exact Option.some.inj hread
        subst hkn
        exact ⟨[m], by simpa using hm, rfl, .last hsame⟩
      · obtain ⟨groups, hgroups, rfl, hgroupsEqual⟩ := ih hrest htail
        exact ⟨n :: groups, List.forall_mem_cons.mpr ⟨hn, hgroups⟩, rfl, .cons n hgroupsEqual⟩

/-! ## Padding -/

/-- The padding of the text and the padding that is supplied fit together exactly when the padding
of the text may follow the data. -/
theorem paddingFits_iff {octets : Octets} {data : Text} {padding : Nat}
    (hlength : data.length = (encode .urlSafe octets).length) :
    paddingFits data.length (padding + shortfall (data ++ Text.replicate padding '=')) = true ↔
      PaddingMayFollow octets padding := by
  have htotal : (data ++ Text.replicate padding '=').length = data.length + padding := by
    rw [List.length_append, Text.replicate, List.length_replicate]
  rw [shortfall, htotal, hlength, length_encode, paddingFits, PaddingMayFollow]
  have hthirds : octets.length % 3 = 0 ∨ octets.length % 3 = 1 ∨ octets.length % 3 = 2 := by omega
  rcases hthirds with hfull | hone | htwo
  · have hdata : (4 * octets.length + 2) / 3 % 4 = 0 := by omega
    rw [hfull, hdata]
    simp only [Bool.or_eq_true, bne_iff_ne, beq_iff_eq, ← List.length_eq_zero_iff]
    omega
  · have hdata : (4 * octets.length + 2) / 3 % 4 = 2 := by omega
    rw [hone, hdata]
    simp only [beq_iff_eq]
    omega
  · have hdata : (4 * octets.length + 2) / 3 % 4 = 3 := by omega
    rw [htwo, hdata]
    simp only [beq_iff_eq]
    omega

/-! ## Texts -/

theorem Spelling.of_written {octets : Octets} {data : Text} {padding : Nat}
    (hwritten : EqualButLast (AlikeAbove (spareBits octets)) (data.map urlSafeForm)
      (encode .urlSafe octets))
    (hpadding : PaddingMayFollow octets padding) : Spelling octets data padding := by
  obtain ⟨groups, hgroups, hforms, -⟩ :=
    exists_groups (fun n hmem => lt_of_mem_sextets hmem) hwritten
  refine ⟨?_, ?_, hwritten, hpadding⟩
  · intro point hmem
    have hform : urlSafeForm point ∈ groups.map (character .urlSafe) :=
      hforms ▸ List.mem_map_of_mem hmem
    obtain ⟨n, hn, hcharacter⟩ := List.mem_map.mp hform
    exact hcharacter ▸ isUrlSafe_character (hgroups n hn)
  · rw [← hwritten.length_eq, List.length_map]

/-- A text is read as octets exactly when it spells them. -/
theorem decodeUnpadded?_eq_some_iff_spells {t : Text} {octets : Octets} :
    decodeUnpadded? .urlSafe t = some octets ↔ Spells t octets := by
  rw [decodeUnpadded?_eq_some_iff]
  constructor
  · rintro ⟨data, padding, groups, rfl, hfits, hgroups, hoctets⟩
    obtain ⟨hbounds, hforms⟩ := mapM_sextet?_eq_some_iff.mp hgroups
    have hequal := equalButLast_map hbounds (fun n hmem => lt_of_mem_sextets hmem)
      ((ofSextets_eq_some_iff hbounds).mp hoctets)
    rw [← hforms] at hequal
    have hlength : data.length = (encode .urlSafe octets).length := by
      rw [encode, ← hequal.length_eq, List.length_map]
    exact ⟨data, padding, rfl, .of_written hequal ((paddingFits_iff hlength).mp hfits)⟩
  · rintro ⟨data, padding, rfl, hspelling⟩
    obtain ⟨groups, hbounds, hforms, hequal⟩ :=
      exists_groups (fun n hmem => lt_of_mem_sextets hmem) hspelling.written
    exact ⟨data, padding, groups, rfl,
      (paddingFits_iff hspelling.length_eq).mpr hspelling.padding_follows,
      mapM_sextet?_eq_some_iff.mpr ⟨hbounds, hforms⟩, (ofSextets_eq_some_iff hbounds).mpr hequal⟩

end Base64

end SealedCall
