import SealedCall.Proofs.Json.NumberToken
import SealedCall.Proofs.Json.StringToken

/-! # Written parts as lexemes

Every part that the printer writes is one lexeme of the reader: a bracket or separator, a word, a
number, or a string. No part starts with a blank, so nothing is skipped in front of it.
-/

namespace SealedCall.Json

/-- Whether a text in front of another one is one lexeme. -/
def Lexes (t : Text) (token : Token) (rest : Text) : Prop :=
  ∀ position, ∃ start stop, nextLexeme position (t ++ rest) = ⟨token, start, stop, rest⟩

theorem nextLexeme_of_head (position : Nat) {point : CodePoint} {rest : Text}
    (hblank : isBlank point = false) :
    nextLexeme position (point :: rest) = lexemeAt position (point :: rest) := by
  rw [nextLexeme, List.takeWhile_cons_of_neg (by simp [hblank]),
    List.dropWhile_cons_of_neg (by simp [hblank])]
  rfl

theorem lexes_punctuation {point : CodePoint} {token : Token} (rest : Text)
    (hblank : isBlank point = false) (htoken : punctuation? point = some token) :
    Lexes [point] token rest := by
  intro position
  refine ⟨position, position + 1, ?_⟩
  rw [List.singleton_append, nextLexeme_of_head position hblank, lexemeAt, htoken]

theorem lexes_string (t rest : Text) : Lexes (string t) (.string (Text.joinPairs t)) rest := by
  intro position
  obtain ⟨stop, hscan⟩ := scanString_string position (position + 1) t rest
  refine ⟨position, stop, ?_⟩
  have htext : string t ++ rest =
      CodePoint.ofChar '"' :: (t.flatMap stringPoint ++ CodePoint.ofChar '"' :: rest) := by
    simp [string]
  have hpunctuation : punctuation? (CodePoint.ofChar '"') = none := rfl
  rw [htext, nextLexeme_of_head position rfl, lexemeAt, hpunctuation]
  simp only
  rw [if_pos (by decide), hscan]
  simp only
  rw [assemble_pieces]

theorem lexes_null (rest : Text) : Lexes (Text.of "null") (.scalar .null) rest :=
  fun position => ⟨position, position + 4, rfl⟩

theorem lexes_bool (b : Bool) (rest : Text) :
    Lexes (Text.of (if b then "true" else "false")) (.scalar (.bool b)) rest := by
  intro position
  cases b with
  | true => exact ⟨position, position + 4, rfl⟩
  | false => exact ⟨position, position + 5, rfl⟩

/-! ## Numbers -/

theorem beq_eq_false_of_isDigit {point : CodePoint} {c : Char} (hdigit : point.isDigit = true)
    (hc : (CodePoint.ofChar c).isDigit = false) : (CodePoint.ofChar c == point) = false := by
  rw [beq_eq_false_iff_ne]
  rintro rfl
  rw [hdigit] at hc
  exact nomatch hc

/-- None of the words starts like a number. -/
theorem find?_words_of_isDigit (negative : Bool) {first : CodePoint} (rest : Text)
    (hdigit : first.isDigit = true) :
    (words.find? fun word => word.1.isPrefixOf (signText negative ++ first :: rest)) = none := by
  have hplain : ∀ (c : Char) (more : Text), (CodePoint.ofChar c).isDigit = false →
      c ≠ '-' → (CodePoint.ofChar c :: more).isPrefixOf
        (signText negative ++ first :: rest) = false := by
    intro c more hc hminus
    cases negative with
    | true =>
        have hne : (CodePoint.ofChar c == CodePoint.ofChar '-') = false := by
          rw [beq_eq_false_iff_ne]
          exact fun h => hminus (Char.toNat_inj.mp (congrArg CodePoint.value h))
        simp [signText, List.isPrefixOf, hne]
    | false => simp [signText, List.isPrefixOf, beq_eq_false_of_isDigit hdigit hc]
  -- only one word starts with a minus sign, and no digit comes next in it
  have hsigned : ∀ (c : Char) (more : Text), (CodePoint.ofChar c).isDigit = false →
      (CodePoint.ofChar '-' :: CodePoint.ofChar c :: more).isPrefixOf
        (signText negative ++ first :: rest) = false := by
    intro c more hc
    cases negative with
    | true => simp [signText, List.isPrefixOf, beq_eq_false_of_isDigit hdigit hc]
    | false =>
        have hne : (CodePoint.ofChar '-' == first) = false := beq_eq_false_of_isDigit hdigit rfl
        simp [signText, List.isPrefixOf, hne]
  rw [List.find?_eq_none]
  intro word hmem
  rw [Bool.not_eq_true]
  simp only [words, List.mem_cons, List.not_mem_nil, or_false] at hmem
  rcases hmem with rfl | rfl | rfl | rfl | rfl | rfl
  · exact hplain 'n' _ rfl (by decide)
  · exact hplain 't' _ rfl (by decide)
  · exact hplain 'f' _ rfl (by decide)
  · exact hplain 'N' _ rfl (by decide)
  · exact hplain 'I' _ rfl (by decide)
  · exact hsigned 'I' _ rfl

/-- The first code point of a number is a digit or a minus sign, and nothing else starts so. -/
theorem nextLexeme_signed (position : Nat) (negative : Bool) {first : CodePoint} {rest : Text}
    {parts : NumberParts} (hdigit : first.isDigit = true)
    (hparts : number? position (signText negative ++ first :: rest) = some parts) :
    nextLexeme position (signText negative ++ first :: rest) =
      ⟨parts.token, position, parts.stop, parts.rest⟩ := by
  have hwords := find?_words_of_isDigit negative rest hdigit
  cases negative with
  | true =>
      have hpunctuation : punctuation? (CodePoint.ofChar '-') = none := rfl
      simp only [signText, if_true, List.cons_append, List.nil_append] at hwords hparts ⊢
      rw [nextLexeme_of_head position rfl, lexemeAt, hpunctuation]
      simp only
      rw [if_neg (by decide), hwords]
      simp only
      rw [hparts]
  | false =>
      have his : ∀ c : Char, c.toNat < 0x30 ∨ 0x39 < c.toNat → first.is c = false :=
        fun c => CodePoint.is_eq_false_of_isDigit hdigit
      have hvalue := CodePoint.within_iff.mp hdigit
      have hblank : isBlank first = false := by
        rw [isBlank, his ' ' (by decide), his '\t' (by decide), his '\n' (by decide),
          his '\r' (by decide)]
        rfl
      have hpunctuation : punctuation? first = none := by
        rw [punctuation?, his '[' (by decide), his ']' (by decide), his ',' (by decide),
          his ':' (by decide), if_neg (by decide), if_neg (by decide), if_neg (by omega),
          if_neg (by omega)]
        rfl
      simp only [signText, Bool.false_eq_true, if_false, List.nil_append] at hwords hparts ⊢
      rw [nextLexeme_of_head position hblank, lexemeAt, hpunctuation]
      simp only
      rw [his '"' (by decide), if_neg (by decide), hwords]
      simp only
      rw [hparts]

theorem lexes_number {t rest : Text} {token : Token} (hscans : ScansNumber t token rest) :
    Lexes t token rest := by
  intro position
  obtain ⟨⟨negative, form, htext⟩, hparts⟩ := hscans
  obtain ⟨parts, hparts, htoken, hrest⟩ := hparts position
  cases hwhole : form.whole with
  | nil => exact absurd hwhole form.whole_digits.ne_nil
  | cons first more =>
      have hdigit : first.isDigit = true :=
        form.whole_digits.digits first (by rw [hwhole]; exact List.mem_cons_self)
      have hsplit : t ++ rest = signText negative ++ first ::
          (more ++ (fractionText form.fraction ++ exponentText form.exponent) ++ rest) := by
        rw [htext, NumberForm.text, hwhole]
        simp
      rw [hsplit] at hparts ⊢
      refine ⟨position, parts.stop, ?_⟩
      rw [nextLexeme_signed position negative hdigit hparts, htoken, hrest]

end SealedCall.Json
