import SealedCall.Proofs.Text.Digits
import SealedCall.Text.Utf8

/-! # UTF-8 reads back

The octets of a code point read back as that code point, whatever follows them, so the octets of a
text read back as the text and two texts never have the same octets. What is read as a text is the
octets of that text, because no longer form of a code point is let through.
-/

namespace SealedCall.Utf8

theorem toNat_octet {n : Nat} (hn : n < 0x100) : (octet n).toNat = n := Nat.mod_eq_of_lt hn

theorem continuation?_continuation (n : Nat) :
    continuation? (continuation n) = some (n % 0x40) := by
  have hvalue : (continuation n).toNat = 0x80 + n % 0x40 := toNat_octet (by omega)
  rw [continuation?, hvalue, if_pos (by omega)]
  exact congrArg some (by omega)

theorem checked_value {point : CodePoint} {least : Nat} (hleast : least ≤ point.value)
    (hplain : point.isSurrogate = false) (surrogatesPass : Bool) :
    checked surrogatesPass least point.value = some point := by
  have hpoint : CodePoint.ofNat? point.value = some point := by
    rw [CodePoint.ofNat?, dif_pos point.value_lt]
  rw [checked, if_neg (Nat.not_lt.mpr hleast), hpoint]
  simp only [hplain, Bool.false_and, Bool.false_eq_true, if_false]

/-- The octets of a code point that is no surrogate read back. -/
theorem decode_octetsOf (surrogatesPass : Bool) {point : CodePoint}
    (hplain : point.isSurrogate = false) (rest : Octets) :
    decode surrogatesPass (octetsOf point ++ rest) =
      (decode surrogatesPass rest).map (point :: ·) := by
  have hvalue := point.value_lt
  rw [octetsOf]
  -- one case for each length, which the leading octet tells by its high bits
  split
  · next hone =>
      have hoctet : (octet point.value).toNat = point.value := toNat_octet (by omega)
      have hback : CodePoint.ofOctet (octet point.value) = point := by
        cases point
        simp only [CodePoint.ofOctet, CodePoint.mk.injEq]
        exact hoctet
      rw [List.cons_append, List.nil_append, decode.eq_def]
      simp only [hoctet, if_pos hone, hback]
  split
  · next hone htwo =>
      have hsum : (0xC0 + point.value / 0x40) % 0x20 * 0x40 + point.value % 0x40 =
          point.value := by omega
      simp only [List.cons_append, List.nil_append]
      rw [decode.eq_def]
      simp only [toNat_octet (by omega : 0xC0 + point.value / 0x40 < 0x100)]
      rw [if_neg (by omega)]
      simp only [continuation?_continuation]
      rw [if_pos (by omega), hsum, checked_value (by omega) hplain]
  split
  · next htwo hthree =>
      have hsum : (0xE0 + point.value / 0x1000) % 0x10 * 0x1000 +
          point.value / 0x40 % 0x40 * 0x40 + point.value % 0x40 = point.value := by omega
      simp only [List.cons_append, List.nil_append]
      rw [decode.eq_def]
      simp only [toNat_octet (by omega : 0xE0 + point.value / 0x1000 < 0x100)]
      rw [if_neg (by omega)]
      simp only [continuation?_continuation]
      rw [if_neg (by omega), if_pos (by omega), hsum, checked_value (by omega) hplain]
  · next hthree =>
      have hsum : (0xF0 + point.value / 0x40000) % 8 * 0x40000 +
          point.value / 0x1000 % 0x40 * 0x1000 + point.value / 0x40 % 0x40 * 0x40 +
            point.value % 0x40 = point.value := by omega
      simp only [List.cons_append, List.nil_append]
      rw [decode.eq_def]
      simp only [toNat_octet (by omega : 0xF0 + point.value / 0x40000 < 0x100)]
      rw [if_neg (by omega)]
      simp only [continuation?_continuation]
      rw [if_neg (by omega), if_neg (by omega), if_pos (by omega), hsum,
        checked_value (by omega) hplain]

theorem decode_encodeFrom {position : Nat} {t : Text} {octets : Octets}
    (hencode : encodeFrom position t = .ok octets) : decode? octets = some t := by
  induction t generalizing position octets with
  | nil =>
      cases hencode
      rfl
  | cons point rest ih =>
      rw [encodeFrom] at hencode
      split at hencode
      · cases hencode
      · next hsurrogate =>
          split at hencode
          · next later hlater =>
              cases hencode
              have hrest := ih hlater
              rw [decode?] at hrest ⊢
              rw [decode_octetsOf false (Bool.eq_false_iff.mpr hsurrogate), hrest]
              rfl
          · cases hencode

/-- The octets of a text read back as the text. -/
theorem decode?_encode {t : Text} {octets : Octets} (hencode : encode t = .ok octets) :
    decode? octets = some t :=
  decode_encodeFrom hencode

theorem encode_injective {s t : Text} {octets : Octets} (hs : encode s = .ok octets)
    (ht : encode t = .ok octets) : s = t := by
  have hboth := (decode?_encode hs).symm.trans (decode?_encode ht)
  exact Option.some.inj hboth

theorem hasSurrogate_of_encodeFrom {position : Nat} {t : Text} {octets : Octets}
    (hencode : encodeFrom position t = .ok octets) : t.hasSurrogate = false := by
  induction t generalizing position octets with
  | nil => rfl
  | cons point rest ih =>
      rw [encodeFrom] at hencode
      split at hencode
      · cases hencode
      · next hsurrogate =>
          split at hencode
          · next hlater =>
              rw [Text.hasSurrogate, List.any_cons, Bool.or_eq_false_iff]
              exact ⟨Bool.eq_false_iff.mpr hsurrogate, ih hlater⟩
          · cases hencode

/-- A text that has octets holds no surrogate. -/
theorem hasSurrogate_of_encode {t : Text} {octets : Octets} (hencode : encode t = .ok octets) :
    t.hasSurrogate = false :=
  hasSurrogate_of_encodeFrom hencode

/-- Where surrogates do not pass, a code point that is taken is none. -/
theorem isSurrogate_of_checked {least n : Nat} {point : CodePoint}
    (hchecked : checked false least n = some point) : point.isSurrogate = false := by
  rw [checked] at hchecked
  split at hchecked
  · cases hchecked
  · split at hchecked
    · next found _ =>
        split at hchecked
        · cases hchecked
        · next hplain =>
            cases hchecked
            rw [Bool.not_false, Bool.and_true] at hplain
            exact Bool.eq_false_iff.mpr hplain
    · cases hchecked

theorem isSurrogate_ofOctet (o : UInt8) : (CodePoint.ofOctet o).isSurrogate = false := by
  have hlt := o.toNat_lt
  rw [CodePoint.isSurrogate, CodePoint.within, CodePoint.ofOctet]
  simp only [Bool.and_eq_false_iff, decide_eq_false_iff_not]
  omega

theorem hasSurrogate_of_map_cons {point : CodePoint} {decoded : Option Text} {t : Text}
    (hpoint : point.isSurrogate = false)
    (hrest : ∀ rest, decoded = some rest → rest.hasSurrogate = false)
    (ht : decoded.map (point :: ·) = some t) : t.hasSurrogate = false := by
  obtain ⟨rest, hdecoded, rfl⟩ := Option.map_eq_some_iff.mp ht
  rw [Text.hasSurrogate, List.any_cons, Bool.or_eq_false_iff]
  exact ⟨hpoint, hrest rest hdecoded⟩

/-- Octets that are read with no surrogate passing hold none. -/
theorem hasSurrogate_of_decode {octets : Octets} {t : Text} (hdecode : decode? octets = some t) :
    t.hasSurrogate = false := by
  rw [decode?] at hdecode
  -- one case for each way through the reader, most of which end without a text
  fun_induction decode false octets generalizing t with
  | case1 =>
      cases hdecode
      rfl
  | case2 a rest _ ih =>
      exact hasSurrogate_of_map_cons (isSurrogate_ofOctet a) (fun _ hrest => ih hrest) hdecode
  | case6 _ _ _ _ _ _ _ _ hchecked ih =>
      exact hasSurrogate_of_map_cons (isSurrogate_of_checked hchecked) (fun _ hrest => ih hrest)
        hdecode
  | case10 _ _ _ _ _ _ _ _ _ _ _ _ hchecked ih =>
      exact hasSurrogate_of_map_cons (isSurrogate_of_checked hchecked) (fun _ hrest => ih hrest)
        hdecode
  | case14 _ _ _ _ _ _ _ _ _ _ _ _ _ _ _ _ hchecked ih =>
      exact hasSurrogate_of_map_cons (isSurrogate_of_checked hchecked) (fun _ hrest => ih hrest)
        hdecode
  | _ => cases hdecode

theorem exists_encodeFrom {t : Text} (hplain : t.hasSurrogate = false) (position : Nat) :
    ∃ octets, encodeFrom position t = .ok octets := by
  induction t generalizing position with
  | nil => exact ⟨[], rfl⟩
  | cons point rest ih =>
      rw [Text.hasSurrogate, List.any_cons, Bool.or_eq_false_iff] at hplain
      obtain ⟨octets, hoctets⟩ := ih hplain.2 (position + 1)
      refine ⟨octetsOf point ++ octets, ?_⟩
      rw [encodeFrom, hplain.1, if_neg Bool.false_ne_true, hoctets]

/-- A text without surrogates has octets. -/
theorem exists_encode {t : Text} (hplain : t.hasSurrogate = false) :
    ∃ octets, encode t = .ok octets :=
  exists_encodeFrom hplain 0

/-! ## What is read was written so -/

theorem eq_octet {o : UInt8} {n : Nat} (hvalue : o.toNat = n) : o = octet n := by
  rw [octet, ← hvalue, UInt8.ofNat_toNat]

theorem continuation?_eq_some {o : UInt8} {low : Nat} (hlow : continuation? o = some low) :
    low < 0x40 ∧ o.toNat = 0x80 + low := by
  have hlt := o.toNat_lt
  rw [continuation?] at hlow
  split at hlow
  · next hmark =>
      rw [Option.some.injEq] at hlow
      omega
  · cases hlow

theorem value_of_checked {least n : Nat} {point : CodePoint}
    (hchecked : checked false least n = some point) : point.value = n ∧ least ≤ n := by
  rw [checked] at hchecked
  split at hchecked
  · cases hchecked
  · next hleast =>
      split at hchecked
      · next found hfound =>
          split at hchecked
          · cases hchecked
          · cases hchecked
            rw [CodePoint.ofNat?] at hfound
            split at hfound
            · cases hfound
              exact ⟨rfl, Nat.not_lt.mp hleast⟩
            · cases hfound
      · cases hchecked

/-- The place that code points are counted from does not matter where a text has octets. -/
theorem encodeFrom_of_encodeFrom {t : Text} {first : Nat} {octets : Octets}
    (hencode : encodeFrom first t = .ok octets) (second : Nat) :
    encodeFrom second t = .ok octets := by
  induction t generalizing first second octets with
  | nil => exact hencode
  | cons point rest ih =>
      rw [encodeFrom] at hencode ⊢
      split at hencode
      · cases hencode
      · next hplain =>
          split at hencode
          · next later hlater =>
              cases hencode
              rw [if_neg hplain, ih hlater]
          · cases hencode

theorem encode_cons {point : CodePoint} {rest : Text} {octets : Octets}
    (hplain : point.isSurrogate = false) (hrest : encode rest = .ok octets) :
    encode (point :: rest) = .ok (octetsOf point ++ octets) := by
  rw [encode, encodeFrom, hplain, if_neg Bool.false_ne_true, encodeFrom_of_encodeFrom hrest]

theorem encode_of_map_cons {point : CodePoint} {octets : Octets} {decoded : Option Text} {t : Text}
    (hplain : point.isSurrogate = false)
    (hrest : ∀ rest, decoded = some rest → encode rest = .ok octets)
    (ht : decoded.map (point :: ·) = some t) : encode t = .ok (octetsOf point ++ octets) := by
  obtain ⟨rest, hdecoded, rfl⟩ := Option.map_eq_some_iff.mp ht
  exact encode_cons hplain (hrest rest hdecoded)

theorem octetsOf_ofOctet {a : UInt8} (ha : a.toNat < 0x80) : octetsOf (.ofOctet a) = [a] := by
  have hvalue : (CodePoint.ofOctet a).value = a.toNat := rfl
  rw [octetsOf, hvalue, if_pos ha, octet, UInt8.ofNat_toNat]

/-- The octets of a code point are known by its value: it is written in the shortest way. -/
theorem octetsOf_two {a b : UInt8} {low : Nat} {point : CodePoint}
    (hb : continuation? b = some low) (ha : a.toNat / 0x20 = 6)
    (hchecked : checked false 0x80 (a.toNat % 0x20 * 0x40 + low) = some point) :
    octetsOf point = [a, b] := by
  obtain ⟨hvalue, hleast⟩ := value_of_checked hchecked
  obtain ⟨hlow, hb⟩ := continuation?_eq_some hb
  rw [octetsOf, hvalue, if_neg (by omega), if_pos (by omega), ← eq_octet (o := a) (by omega),
    continuation, ← eq_octet (o := b) (by omega)]

theorem octetsOf_three {a b c : UInt8} {low lower : Nat} {point : CodePoint}
    (hb : continuation? b = some low) (hc : continuation? c = some lower)
    (ha : a.toNat / 0x10 = 14)
    (hchecked : checked false 0x800 (a.toNat % 0x10 * 0x1000 + low * 0x40 + lower) = some point) :
    octetsOf point = [a, b, c] := by
  obtain ⟨hvalue, hleast⟩ := value_of_checked hchecked
  obtain ⟨hlow, hb⟩ := continuation?_eq_some hb
  obtain ⟨hlower, hc⟩ := continuation?_eq_some hc
  rw [octetsOf, hvalue, if_neg (by omega), if_neg (by omega), if_pos (by omega),
    ← eq_octet (o := a) (by omega), continuation, ← eq_octet (o := b) (by omega),
    continuation, ← eq_octet (o := c) (by omega)]

theorem octetsOf_four {a b c d : UInt8} {low lower lowest : Nat} {point : CodePoint}
    (hb : continuation? b = some low) (hc : continuation? c = some lower)
    (hd : continuation? d = some lowest) (ha : a.toNat / 8 = 30)
    (hchecked : checked false 0x10000
      (a.toNat % 8 * 0x40000 + low * 0x1000 + lower * 0x40 + lowest) = some point) :
    octetsOf point = [a, b, c, d] := by
  obtain ⟨hvalue, hleast⟩ := value_of_checked hchecked
  obtain ⟨hlow, hb⟩ := continuation?_eq_some hb
  obtain ⟨hlower, hc⟩ := continuation?_eq_some hc
  obtain ⟨hlowest, hd⟩ := continuation?_eq_some hd
  rw [octetsOf, hvalue, if_neg (by omega), if_neg (by omega), if_neg (by omega),
    ← eq_octet (o := a) (by omega), continuation, ← eq_octet (o := b) (by omega),
    continuation, ← eq_octet (o := c) (by omega), continuation, ← eq_octet (o := d) (by omega)]

/-- Octets that are read as a text are the octets of that text. -/
theorem encode_of_decode {octets : Octets} {t : Text} (hdecode : decode? octets = some t) :
    encode t = .ok octets := by
  rw [decode?] at hdecode
  fun_induction decode false octets generalizing t with
  | case1 =>
      cases hdecode
      rfl
  | case2 a _ ha ih =>
      rw [encode_of_map_cons (isSurrogate_ofOctet a) (fun _ hrest => ih hrest) hdecode,
        octetsOf_ofOctet ha]
      rfl
  | case6 _ _ _ _ _ hb ha _ hchecked ih =>
      rw [encode_of_map_cons (isSurrogate_of_checked hchecked) (fun _ hrest => ih hrest) hdecode,
        octetsOf_two hb ha hchecked]
      rfl
  | case10 _ _ _ _ hb _ _ _ _ hc ha _ hchecked ih =>
      rw [encode_of_map_cons (isSurrogate_of_checked hchecked) (fun _ hrest => ih hrest) hdecode,
        octetsOf_three hb hc ha hchecked]
      rfl
  | case14 _ _ _ _ hb _ _ _ hc _ _ _ _ hd ha _ hchecked ih =>
      rw [encode_of_map_cons (isSurrogate_of_checked hchecked) (fun _ hrest => ih hrest) hdecode,
        octetsOf_four hb hc hd ha hchecked]
      rfl
  | _ => cases hdecode

end SealedCall.Utf8
