import SealedCall.Json.Printer
import SealedCall.Json.Token
import SealedCall.Proofs.Text.Digits

/-! # Written strings as tokens

A written string is scanned back piece by piece: every code point of the text gives one piece, or
the two surrogates of its pair. Putting the pieces together gives the text with its surrogate pairs
joined, because surrogates that stood beside each other look no different from a written character.
-/

namespace SealedCall

namespace Json

/-! ## Pieces -/

/-- The first surrogate of a code point beyond sixteen bits. -/
def highHalf (point : CodePoint) : CodePoint :=
  ⟨0xD800 + (point.value - 0x10000) / 0x400, by have := point.value_lt; omega⟩

/-- The second surrogate of a code point beyond sixteen bits. -/
def lowHalf (point : CodePoint) : CodePoint :=
  ⟨0xDC00 + (point.value - 0x10000) % 0x400, by omega⟩

/-- Whether a code point stands in a written string by a letter or by itself. -/
def isUnescaped (point : CodePoint) : Bool :=
  point.within 0x08 0x0A || point.within 0x0C 0x0D || point.within 0x20 0x7E

/-- The pieces in which a code point is written. -/
def pieces (point : CodePoint) : List Piece :=
  if isUnescaped point then [⟨false, point⟩]
  else if point.value < 0x10000 then [⟨true, point⟩]
  else [⟨true, highHalf point⟩, ⟨true, lowHalf point⟩]

theorem isHighSurrogate_highHalf {point : CodePoint} (hlarge : 0x10000 ≤ point.value) :
    (highHalf point).isHighSurrogate = true := by
  have hlt := point.value_lt
  have hvalue : (highHalf point).value = 0xD800 + (point.value - 0x10000) / 0x400 := rfl
  rw [CodePoint.isHighSurrogate, CodePoint.within_iff]
  omega

theorem isLowSurrogate_highHalf {point : CodePoint} (hlarge : 0x10000 ≤ point.value) :
    (highHalf point).isLowSurrogate = false := by
  have hlt := point.value_lt
  have hvalue : (highHalf point).value = 0xD800 + (point.value - 0x10000) / 0x400 := rfl
  rw [CodePoint.isLowSurrogate, CodePoint.within_eq_false_iff]
  omega

theorem isLowSurrogate_lowHalf (point : CodePoint) : (lowHalf point).isLowSurrogate = true := by
  have hvalue : (lowHalf point).value = 0xDC00 + (point.value - 0x10000) % 0x400 := rfl
  rw [CodePoint.isLowSurrogate, CodePoint.within_iff]
  omega

theorem ofPair_halves {point : CodePoint} (hlarge : 0x10000 ≤ point.value) :
    CodePoint.ofPair (highHalf point) (lowHalf point) = point := by
  have hlt := point.value_lt
  apply CodePoint.eq_of_value
  simp only [CodePoint.ofPair, highHalf, lowHalf]
  omega

/-- The scan with several more pieces before it. -/
def StringScan.afterAll (content : List Piece) (scan : StringScan) : StringScan :=
  content.foldr StringScan.after scan

theorem StringScan.afterAll_closed (content more : List Piece) (stop : Nat) (rest : Text) :
    (StringScan.closed more stop rest).afterAll content = .closed (content ++ more) stop rest := by
  induction content with
  | nil => rfl
  | cons piece content ih =>
      rw [afterAll] at ih ⊢
      rw [List.foldr_cons, ih]
      rfl

/-! ## Scanning -/

section Scanning

variable (opening position : Nat)

theorem scanString_quote (rest : Text) :
    scanString opening position (CodePoint.ofChar '"' :: rest) =
      .closed [] (position + 1) rest := by
  rw [scanString.eq_def]
  rfl

theorem scanString_plain {point : CodePoint} (rest : Text) (hcontrol : 0x20 ≤ point.value)
    (hquote : point.is '"' = false) (hbackslash : point.is '\\' = false) :
    scanString opening position (point :: rest) =
      (scanString opening (position + 1) rest).after ⟨false, point⟩ := by
  rw [scanString.eq_def]
  simp only
  rw [if_neg (Bool.not_eq_true _ ▸ hquote), if_neg (Nat.not_lt.mpr hcontrol),
    if_neg (Bool.not_eq_true _ ▸ hbackslash)]

theorem scanString_letter {letter meant : CodePoint} (rest : Text)
    (hletter : letter.is 'u' = false) (hmeant : letterEscape? letter = some meant) :
    scanString opening position (CodePoint.ofChar '\\' :: letter :: rest) =
      (scanString opening (position + 2) rest).after ⟨false, meant⟩ := by
  rw [scanString.eq_def]
  simp only
  rw [if_neg (by decide), if_neg (by decide), if_pos (by decide),
    if_neg (Bool.not_eq_true _ ▸ hletter), hmeant]

/-- The digits of an escape give the unit back. -/
theorem unit?_digits {n : Nat} (hn : n < 0x10000) :
    unit? (Text.hexCharacter (n / 0x1000)) (Text.hexCharacter (n / 0x100 % 0x10))
        (Text.hexCharacter (n / 0x10 % 0x10)) (Text.hexCharacter (n % 0x10)) =
      some ⟨n, by omega⟩ := by
  rw [unit?, Text.hexCharacter, CodePoint.hexValue?_digitChar (by omega), Text.hexCharacter,
    CodePoint.hexValue?_digitChar (by omega), Text.hexCharacter,
    CodePoint.hexValue?_digitChar (by omega), Text.hexCharacter,
    CodePoint.hexValue?_digitChar (by omega)]
  simp only
  have hsum : n / 0x1000 * 0x1000 + n / 0x100 % 0x10 * 0x100 + n / 0x10 % 0x10 * 0x10 +
      n % 0x10 = n := by omega
  rw [hsum, CodePoint.ofNat?, dif_pos (by omega)]

theorem scanString_unit {a b c d unit : CodePoint} (hunit : unit? a b c d = some unit) {rest : Text}
    (hrest : rest ≠ []) :
    scanString opening position
        (CodePoint.ofChar '\\' :: CodePoint.ofChar 'u' :: a :: b :: c :: d :: rest) =
      (scanString opening (position + 6) rest).after ⟨true, unit⟩ := by
  rw [scanString.eq_def]
  simp only
  rw [if_neg (by decide), if_neg (by decide), if_pos (by decide), if_pos (by decide),
    if_neg (by rw [List.isEmpty_iff]; exact hrest), hunit]

theorem scanString_unitEscape {n : Nat} (hn : n < 0x10000) {rest : Text} (hrest : rest ≠ []) :
    scanString opening position (unitEscape n ++ rest) =
      (scanString opening (position + 6) rest).after ⟨true, ⟨n, by omega⟩⟩ := by
  have hmark : Text.of "\\u" = [CodePoint.ofChar '\\', CodePoint.ofChar 'u'] := rfl
  rw [unitEscape, Text.ofHex_four hn, hmark]
  exact scanString_unit opening position (unit?_digits hn) hrest

/-- A code point is scanned as its pieces, whatever follows it up to the closing quote. -/
theorem scanString_stringPoint (point : CodePoint) {rest : Text} (hrest : rest ≠ []) :
    ∃ later, scanString opening position (stringPoint point ++ rest) =
      (scanString opening later rest).afterAll (pieces point) := by
  obtain ⟨n, hlt⟩ := point
  have hletter : ∀ (letter meant : CodePoint), meant = ⟨n, hlt⟩ →
      letter.is 'u' = false → letterEscape? letter = some meant →
      isUnescaped ⟨n, hlt⟩ = true →
      ∃ later, scanString opening position (CodePoint.ofChar '\\' :: letter :: rest) =
        (scanString opening later rest).afterAll (pieces ⟨n, hlt⟩) := by
    intro letter meant hmeant hu hescape hplain
    refine ⟨position + 2, ?_⟩
    rw [scanString_letter opening position rest hu hescape, pieces, if_pos hplain, hmeant]
    rfl
  simp only [stringPoint]
  -- one case for each kind of escape, in the order of the printer
  split
  next h => subst h; exact hletter (CodePoint.ofChar '"') _ rfl rfl rfl rfl
  split
  next h => subst h; exact hletter (CodePoint.ofChar '\\') _ rfl rfl rfl rfl
  split
  next h => subst h; exact hletter (CodePoint.ofChar 'n') _ rfl rfl rfl rfl
  split
  next h => subst h; exact hletter (CodePoint.ofChar 'r') _ rfl rfl rfl rfl
  split
  next h => subst h; exact hletter (CodePoint.ofChar 't') _ rfl rfl rfl rfl
  split
  next h => subst h; exact hletter (CodePoint.ofChar 'f') _ rfl rfl rfl rfl
  split
  next h => subst h; exact hletter (CodePoint.ofChar 'b') _ rfl rfl rfl rfl
  next h₁ h₂ h₃ h₄ h₅ h₆ h₇ =>
    have hplain : isUnescaped ⟨n, hlt⟩ = true ↔ 0x20 ≤ n ∧ n ≤ 0x7E := by
      simp only [isUnescaped, Bool.or_eq_true, CodePoint.within_iff]
      omega
    by_cases hprintable : 0x20 ≤ n ∧ n ≤ 0x7E
    · rw [if_pos hprintable, pieces, if_pos (hplain.mpr hprintable)]
      exact ⟨position + 1, scanString_plain opening position rest hprintable.1
        (CodePoint.is_eq_false_iff.mpr h₁) (CodePoint.is_eq_false_iff.mpr h₂)⟩
    rw [if_neg hprintable, pieces, if_neg (fun h => hprintable (hplain.mp h))]
    by_cases hsmall : n < 0x10000
    · rw [if_pos hsmall, if_pos hsmall]
      exact ⟨position + 6, scanString_unitEscape opening position hsmall hrest⟩
    · rw [if_neg hsmall, if_neg hsmall, List.append_assoc,
        scanString_unitEscape opening position (by omega) (by simp [hrest]),
        scanString_unitEscape opening (position + 6) (by omega) hrest]
      exact ⟨position + 6 + 6, rfl⟩

/-- A written string is scanned up to its closing quote as the pieces of its text. -/
theorem scanString_string (t : Text) (rest : Text) :
    ∃ stop, scanString opening position
        (t.flatMap stringPoint ++ CodePoint.ofChar '"' :: rest) =
      .closed (t.flatMap pieces) stop rest := by
  induction t generalizing position with
  | nil => exact ⟨position + 1, scanString_quote opening position rest⟩
  | cons point t ih =>
      have hrest : t.flatMap stringPoint ++ CodePoint.ofChar '"' :: rest ≠ [] := by simp
      obtain ⟨later, hpoint⟩ := scanString_stringPoint opening position point hrest
      obtain ⟨stop, hscan⟩ := ih later
      refine ⟨stop, ?_⟩
      rw [List.flatMap_cons, List.append_assoc, hpoint, hscan, StringScan.afterAll_closed,
        List.flatMap_cons]

end Scanning

/-! ## Putting pieces together -/

/-- Whether two pieces are put together into one character. -/
def joins (first second : Piece) : Bool :=
  first.escaped && second.escaped && first.point.isHighSurrogate && second.point.isLowSurrogate

theorem assemble_of_joins {first second : Piece} (rest : List Piece)
    (hjoins : joins first second = true) :
    assemble (first :: second :: rest) =
      CodePoint.ofPair first.point second.point :: assemble rest := by
  rw [joins] at hjoins
  rw [assemble, if_pos hjoins]

/-- A piece that does not join the one behind it stands for its own code point. -/
theorem assemble_cons {first : Piece} {rest : List Piece}
    (hapart : ∀ second, rest.head? = some second → joins first second = false) :
    assemble (first :: rest) = first.point :: assemble rest := by
  cases rest with
  | nil => rfl
  | cons second rest =>
      have hfalse := hapart second rfl
      rw [assemble, if_neg]
      rw [joins] at hfalse
      rw [hfalse]
      decide

/-- The pieces of a text that does not start with a low surrogate do not start with one either. -/
theorem joins_pieces {first : Piece} {point : CodePoint} {rest : List Piece} {second : Piece}
    (hpoint : first.point.isHighSurrogate = false ∨ point.isLowSurrogate = false)
    (hsecond : (pieces point ++ rest).head? = some second) : joins first second = false := by
  rcases hpoint with hfirst | hlow
  · simp [joins, hfirst]
  · have hsurrogate : second.point.isLowSurrogate = false := by
      rw [pieces] at hsecond
      split at hsecond
      · cases hsecond
        exact hlow
      split at hsecond
      · cases hsecond
        exact hlow
      next hlarge =>
        cases hsecond
        exact isLowSurrogate_highHalf (by omega)
    simp [joins, hsurrogate]

/-- The pieces of one code point give it back, unless it is joined with what follows. -/
theorem assemble_pieces_append {point : CodePoint} {rest : List Piece}
    (hapart : ∀ escaped second, rest.head? = some second → joins ⟨escaped, point⟩ second = false) :
    assemble (pieces point ++ rest) = point :: assemble rest := by
  rw [pieces]
  split
  · exact assemble_cons (hapart false)
  split
  · exact assemble_cons (hapart true)
  next hlarge =>
    have hjoins : joins ⟨true, highHalf point⟩ ⟨true, lowHalf point⟩ = true := by
      simp only [joins, isHighSurrogate_highHalf (Nat.not_lt.mp hlarge), isLowSurrogate_lowHalf,
        Bool.and_self]
    simp only [List.cons_append, List.nil_append]
    rw [assemble_of_joins rest hjoins, ofPair_halves (Nat.not_lt.mp hlarge)]

/-- A surrogate is always written as an escape. -/
theorem pieces_surrogate {point : CodePoint} (hsurrogate : point.isSurrogate = true) :
    pieces point = [⟨true, point⟩] := by
  have hvalue := CodePoint.within_iff.mp hsurrogate
  have hescaped : ¬ isUnescaped point = true := by
    simp only [isUnescaped, Bool.or_eq_true, CodePoint.within_iff]
    omega
  rw [pieces, if_neg hescaped, if_pos (by omega)]

theorem isSurrogate_of_isHighSurrogate {point : CodePoint} (h : point.isHighSurrogate = true) :
    point.isSurrogate = true := by
  have hvalue := CodePoint.within_iff.mp h
  rw [CodePoint.isSurrogate, CodePoint.within_iff]
  omega

theorem isSurrogate_of_isLowSurrogate {point : CodePoint} (h : point.isLowSurrogate = true) :
    point.isSurrogate = true := by
  have hvalue := CodePoint.within_iff.mp h
  rw [CodePoint.isSurrogate, CodePoint.within_iff]
  omega

/-- What is read back of a written text is the text with its surrogate pairs joined. -/
theorem assemble_pieces (t : Text) : assemble (t.flatMap pieces) = Text.joinPairs t := by
  fun_induction Text.joinPairs t with
  | case1 => rfl
  | case2 last =>
      rw [List.flatMap_cons, List.flatMap_nil]
      exact assemble_pieces_append fun _ _ h => nomatch h
  | case3 first second rest hpair ih =>
      rw [Bool.and_eq_true] at hpair
      rw [List.flatMap_cons, List.flatMap_cons,
        pieces_surrogate (isSurrogate_of_isHighSurrogate hpair.1),
        pieces_surrogate (isSurrogate_of_isLowSurrogate hpair.2)]
      simp only [List.cons_append, List.nil_append]
      rw [assemble_of_joins _ (by simp [joins, hpair]), ih]
  | case4 first second rest hpair ih =>
      rw [List.flatMap_cons, assemble_pieces_append, ih]
      intro escaped piece hpiece
      rw [List.flatMap_cons] at hpiece
      refine joins_pieces ?_ hpiece
      rwa [Bool.not_eq_true, Bool.and_eq_false_iff] at hpair

end Json

end SealedCall
