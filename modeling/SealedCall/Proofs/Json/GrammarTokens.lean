import Mathlib.Data.List.TakeWhile
import SealedCall.Proofs.Json.Grammar
import SealedCall.Proofs.Json.Lexeme

/-! # The tokens of the grammar

The scanner takes a string, a number or a word from the start of a text exactly when the grammar has
it there. A string is closed by its first quote that is not escaped, and a number is as long as what
stands behind it lets it be.
-/

namespace SealedCall.Json

/-! ## Strings -/

theorem letterEscape?_eq_some_iff {letter meant : CodePoint} :
    letterEscape? letter = some meant ↔ LetterEscape letter meant := by
  have hrow : ∀ {c : Char} {n : Nat}, (c, n) ∈ letterEscapes → letter.is c = true →
      meant.value = n → LetterEscape letter meant :=
    fun hmem hletter hmeant => ⟨_, hmem, CodePoint.is_iff.mp hletter, hmeant⟩
  constructor
  · intro hescape
    rw [letterEscape?] at hescape
    split at hescape
    · next hsame =>
        cases hescape
        rw [Bool.or_eq_true, Bool.or_eq_true] at hsame
        rcases hsame with (hletter | hletter) | hletter
        · exact hrow (by decide) hletter (CodePoint.is_iff.mp hletter)
        · exact hrow (by decide) hletter (CodePoint.is_iff.mp hletter)
        · exact hrow (by decide) hletter (CodePoint.is_iff.mp hletter)
    split at hescape
    · next hletter => cases hescape; exact hrow (by decide) hletter rfl
    split at hescape
    · next hletter => cases hescape; exact hrow (by decide) hletter rfl
    split at hescape
    · next hletter => cases hescape; exact hrow (by decide) hletter rfl
    split at hescape
    · next hletter => cases hescape; exact hrow (by decide) hletter rfl
    split at hescape
    · next hletter => cases hescape; exact hrow (by decide) hletter rfl
    · cases hescape
  · rintro ⟨⟨c, n⟩, hmem, hletter, hmeant⟩
    obtain ⟨value, hvalue⟩ := letter
    obtain ⟨result, hresult⟩ := meant
    simp only at hletter hmeant
    subst hletter hmeant
    simp only [letterEscapes, List.mem_cons, Prod.mk.injEq, List.not_mem_nil, or_false] at hmem
    rcases hmem with ⟨rfl, rfl⟩ | ⟨rfl, rfl⟩ | ⟨rfl, rfl⟩ | ⟨rfl, rfl⟩ | ⟨rfl, rfl⟩ | ⟨rfl, rfl⟩ |
      ⟨rfl, rfl⟩ | ⟨rfl, rfl⟩ <;> rfl

theorem unitEscape_of_unit? {a b c d unit : CodePoint} (hunit : unit? a b c d = some unit) :
    UnitEscape (CodePoint.ofChar '\\' :: CodePoint.ofChar 'u' :: [a, b, c, d]) unit := by
  rw [unit?] at hunit
  split at hunit
  · next i j k l ha hb hc hd =>
      rw [CodePoint.ofNat?] at hunit
      split at hunit
      · cases hunit
        exact ⟨a, b, c, d, i, j, k, l, rfl, ha, hb, hc, hd, rfl⟩
      · cases hunit
  · cases hunit

theorem UnitEscape.unit? {written : Text} {unit : CodePoint} (hunit : UnitEscape written unit) :
    ∃ a b c d, written = CodePoint.ofChar '\\' :: CodePoint.ofChar 'u' :: [a, b, c, d] ∧
      Json.unit? a b c d = some unit := by
  obtain ⟨a, b, c, d, i, j, k, l, rfl, ha, hb, hc, hd, hvalue⟩ := hunit
  refine ⟨a, b, c, d, rfl, ?_⟩
  have hlt := unit.value_lt
  rw [Json.unit?, ha, hb, hc, hd]
  simp only
  rw [CodePoint.ofNat?, dif_pos (by omega)]
  exact congrArg some (CodePoint.eq_of_value hvalue.symm)

/-- What may stand between the quotes of a string, piece by piece. -/
inductive Spelled : Text → List Piece → Prop
  | nil : Spelled [] []
  | plain {point : CodePoint} {body : Text} {content : List Piece} (hcontrol : 0x20 ≤ point.value)
      (hquote : point.is '"' = false) (hbackslash : point.is '\\' = false)
      (hbody : Spelled body content) : Spelled (point :: body) (⟨false, point⟩ :: content)
  | letter {letter meant : CodePoint} {body : Text} {content : List Piece}
      (hletter : LetterEscape letter meant) (hbody : Spelled body content) :
      Spelled (CodePoint.ofChar '\\' :: letter :: body) (⟨false, meant⟩ :: content)
  | unit {written body : Text} {unit : CodePoint} {content : List Piece}
      (hunit : UnitEscape written unit) (hbody : Spelled body content) :
      Spelled (written ++ body) (⟨true, unit⟩ :: content)

theorem StringScan.after_eq_closed {piece : Piece} {scan : StringScan} {content : List Piece}
    {stop : Nat} {rest : Text} (hscan : scan.after piece = .closed content stop rest) :
    ∃ more, content = piece :: more ∧ scan = .closed more stop rest := by
  cases scan with
  | closed more _ _ =>
      cases hscan
      exact ⟨more, rfl, rfl⟩
  | broken position => cases hscan

/-- What is scanned as a closed string is a spelling of its pieces. -/
theorem spelled_of_scanString {opening position : Nat} {t : Text} {content : List Piece}
    {stop : Nat} {rest : Text}
    (hscan : scanString opening position t = .closed content stop rest) :
    ∃ body, t = body ++ CodePoint.ofChar '"' :: rest ∧ Spelled body content := by
  fun_induction scanString opening position t generalizing content with
  | case2 position point behind hquote =>
      cases hscan
      exact ⟨[], by rw [CodePoint.eq_ofChar_of_is hquote]; rfl, .nil⟩
  | case7 _ _ _ _ hbackslash _ hu _ _ _ _ _ _ _ hunit ih =>
      obtain ⟨more, rfl, hmore⟩ := StringScan.after_eq_closed hscan
      obtain ⟨body, rfl, hbody⟩ := ih hmore
      rw [CodePoint.eq_ofChar_of_is hbackslash, CodePoint.eq_ofChar_of_is hu]
      exact ⟨_, rfl, .unit (unitEscape_of_unit? hunit) hbody⟩
  | case9 _ _ _ _ hbackslash _ _ _ _ hletter ih =>
      obtain ⟨more, rfl, hmore⟩ := StringScan.after_eq_closed hscan
      obtain ⟨body, rfl, hbody⟩ := ih hmore
      rw [CodePoint.eq_ofChar_of_is hbackslash]
      exact ⟨_, rfl, .letter (letterEscape?_eq_some_iff.mp hletter) hbody⟩
  | case11 _ _ _ hquote hcontrol hbackslash ih =>
      obtain ⟨more, rfl, hmore⟩ := StringScan.after_eq_closed hscan
      obtain ⟨body, rfl, hbody⟩ := ih hmore
      exact ⟨_, rfl, .plain (Nat.not_lt.mp hcontrol) (Bool.eq_false_iff.mpr hquote)
        (Bool.eq_false_iff.mpr hbackslash) hbody⟩
  | _ => cases hscan

theorem LetterEscape.is_u {letter meant : CodePoint} (hletter : LetterEscape letter meant) :
    letter.is 'u' = false := by
  obtain ⟨row, hmem, hvalue, -⟩ := hletter
  have hrows : ∀ row ∈ letterEscapes, row.1.toNat ≠ 'u'.toNat := by decide
  rw [CodePoint.is_eq_false_iff, hvalue]
  exact hrows row hmem

/-- The scanner closes a string behind everything that is spelled in it. -/
theorem scanString_of_spelled (opening : Nat) {body : Text} {content : List Piece}
    (hspelled : Spelled body content) (position : Nat) (rest : Text) :
    ∃ stop, scanString opening position (body ++ CodePoint.ofChar '"' :: rest) =
      .closed content stop rest := by
  induction hspelled generalizing position with
  | nil => exact ⟨_, scanString_quote opening position rest⟩
  | plain hcontrol hquote hbackslash _ ih =>
      obtain ⟨stop, hscan⟩ := ih (position + 1)
      refine ⟨stop, ?_⟩
      rw [List.cons_append, scanString_plain opening position _ hcontrol hquote hbackslash, hscan]
      rfl
  | letter hletter _ ih =>
      obtain ⟨stop, hscan⟩ := ih (position + 2)
      refine ⟨stop, ?_⟩
      rw [List.cons_append, List.cons_append, scanString_letter opening position _ hletter.is_u
        (letterEscape?_eq_some_iff.mpr hletter), hscan]
      rfl
  | unit hunit _ ih =>
      obtain ⟨stop, hscan⟩ := ih (position + 6)
      obtain ⟨a, b, c, d, rfl, hdigits⟩ := hunit.unit?
      refine ⟨stop, ?_⟩
      simp only [List.cons_append, List.nil_append]
      rw [scanString_unit opening position hdigits (by simp), hscan]
      rfl

/-! ## Surrogates inside strings -/

/-- Only a low surrogate that is escaped can be spelled at the start of a body that starts with
one. -/
theorem Spelled.of_startsLow {body : Text} {content : List Piece} (hspelled : Spelled body content)
    (hlow : StartsLow body) :
    ∃ second more, content = second :: more ∧ second.escaped = true ∧
      second.point.isLowSurrogate = true := by
  obtain ⟨written, unit, rest, rfl, hunit, hlow⟩ := hlow
  obtain ⟨a, b, c, d, rfl, hdigits⟩ := hunit.unit?
  simp only [List.cons_append, List.nil_append] at hspelled
  generalize hbody : CodePoint.ofChar '\\' :: CodePoint.ofChar 'u' :: a :: b :: c :: d :: rest =
    body at hspelled
  cases hspelled with
  | nil => cases hbody
  | plain _ _ hbackslash _ =>
      cases hbody
      exact absurd hbackslash (by decide)
  | letter hletter _ =>
      cases hbody
      exact absurd hletter.is_u (by decide)
  | unit hother _ =>
      obtain ⟨_, _, _, _, rfl, hsame⟩ := hother.unit?
      cases hbody
      rw [hdigits] at hsame
      cases hsame
      exact ⟨_, _, rfl, rfl, hlow⟩

theorem Spelled.startsLow {body : Text} {second : Piece} {more : List Piece}
    (hspelled : Spelled body (second :: more)) (hescaped : second.escaped = true)
    (hlow : second.point.isLowSurrogate = true) : StartsLow body := by
  cases hspelled with
  | plain => cases hescaped
  | letter => cases hescaped
  | unit hunit _ => exact ⟨_, _, _, rfl, hunit, hlow⟩

theorem Content.spelled {body t : Text} (hcontent : Content body t) :
    ∃ content, Spelled body content ∧ assemble content = t := by
  induction hcontent with
  | nil => exact ⟨[], .nil, rfl⟩
  | plain hcontrol hquote hbackslash _ ih =>
      obtain ⟨content, hspelled, rfl⟩ := ih
      exact ⟨_, .plain hcontrol hquote hbackslash hspelled, assemble_cons fun _ _ => rfl⟩
  | letter hletter _ ih =>
      obtain ⟨content, hspelled, rfl⟩ := ih
      exact ⟨_, .letter hletter hspelled, assemble_cons fun _ _ => rfl⟩
  | pair hfirst hsecond hhigh hlow _ ih =>
      obtain ⟨content, hspelled, rfl⟩ := ih
      refine ⟨_, .unit hfirst (.unit hsecond hspelled), assemble_of_joins content ?_⟩
      simp only [joins, hhigh, hlow, Bool.and_self]
  | unit hunit halone _ ih =>
      obtain ⟨content, hspelled, rfl⟩ := ih
      refine ⟨_, .unit hunit hspelled, assemble_cons fun second hsecond => ?_⟩
      obtain ⟨more, rfl⟩ := List.head?_eq_some_iff.mp hsecond
      rw [← Bool.not_eq_true]
      intro hjoins
      simp only [joins, Bool.and_eq_true, Bool.true_and] at hjoins
      obtain ⟨⟨hescaped, hhigh⟩, hlow⟩ := hjoins
      exact halone hhigh (hspelled.startsLow hescaped hlow)

/-- What is spelled piece by piece is the inside of a string of the assembled pieces. -/
theorem Spelled.content {body : Text} {content : List Piece} (hspelled : Spelled body content) :
    Content body (assemble content) := by
  fun_induction assemble content generalizing body with
  | case1 =>
      cases hspelled
      exact .nil
  | case2 last =>
      cases hspelled with
      | plain hcontrol hquote hbackslash hbody =>
          cases hbody
          exact .plain hcontrol hquote hbackslash .nil
      | letter hletter hbody =>
          cases hbody
          exact .letter hletter .nil
      | unit hunit hbody =>
          cases hbody
          refine .unit hunit (fun _ hstarts => ?_) .nil
          obtain ⟨_, _, hnone, -⟩ := Spelled.of_startsLow .nil hstarts
          cases hnone
  | case3 first second rest hjoins ih =>
      simp only [Bool.and_eq_true] at hjoins
      obtain ⟨⟨⟨hfirst, hsecond⟩, hhigh⟩, hlow⟩ := hjoins
      cases hspelled with
      | plain => cases hfirst
      | letter => cases hfirst
      | unit hunit hbody =>
          cases hbody with
          | plain => cases hsecond
          | letter => cases hsecond
          | unit hother hbody => exact .pair hunit hother hhigh hlow (ih hbody)
  | case4 first second rest hjoins ih =>
      cases hspelled with
      | plain hcontrol hquote hbackslash hbody =>
          exact .plain hcontrol hquote hbackslash (ih hbody)
      | letter hletter hbody => exact .letter hletter (ih hbody)
      | unit hunit hbody =>
          refine .unit hunit (fun hhigh hstarts => hjoins ?_) (ih hbody)
          obtain ⟨_, _, hsame, hescaped, hlow⟩ := hbody.of_startsLow hstarts
          cases hsame
          simp only [hescaped, hhigh, hlow, Bool.and_self]

/-! ## Numbers -/

theorem allDigits_leadingDigits (t : Text) : AllDigits (leadingDigits t) :=
  List.all_eq_true.mp List.all_takeWhile

theorem leadingDigits_append_drop (t : Text) :
    leadingDigits t ++ t.drop (leadingDigits t).length = t := by
  have hprefix : leadingDigits t <+: t := List.takeWhile_prefix _
  exact (List.prefix_iff_eq_append.mp hprefix)

theorem wholeDigits_of_wholeDigits? {t whole : Text} (hwhole : wholeDigits? t = some whole) :
    WholeDigits whole ∧ t = whole ++ t.drop whole.length := by
  have hdigits := allDigits_leadingDigits t
  have hsplit := leadingDigits_append_drop t
  rw [wholeDigits?] at hwhole
  split at hwhole
  · cases hwhole
  · next first more hleading =>
      rw [hleading] at hdigits hsplit
      rw [Option.some.injEq] at hwhole
      split at hwhole
      · subst hwhole
        refine ⟨⟨?_, List.cons_ne_nil _ _, .inl rfl⟩, ?_⟩
        · intro point hpoint
          rw [List.mem_singleton.mp hpoint]
          exact hdigits first List.mem_cons_self
        · rw [← hsplit]
          rfl
      · next hzero =>
          subst hwhole
          refine ⟨⟨hdigits, List.cons_ne_nil _ _, .inr ?_⟩, hsplit.symm⟩
          rintro _ ⟨⟩
          exact Bool.eq_false_iff.mpr hzero

theorem fractionText_of_fractionDigits (t : Text) :
    AllDigits (fractionDigits t) ∧
      t = fractionText (fractionDigits t) ++
        t.drop (if (fractionDigits t).isEmpty then 0 else (fractionDigits t).length + 1) := by
  have hnone : AllDigits [] := fun _ hmem => nomatch hmem
  cases t with
  | nil => exact ⟨hnone, rfl⟩
  | cons point rest =>
      rw [fractionDigits]
      split
      · next hpoint =>
          refine ⟨allDigits_leadingDigits rest, ?_⟩
          have hsplit := leadingDigits_append_drop rest
          cases hleading : leadingDigits rest with
          | nil => rfl
          | cons first more =>
              rw [hleading] at hsplit
              rw [fractionText, List.isEmpty_cons, if_neg Bool.false_ne_true,
                if_neg Bool.false_ne_true, List.drop_succ_cons, List.cons_append, hsplit,
                CodePoint.eq_ofChar_of_is hpoint]
      · exact ⟨hnone, rfl⟩

theorem exponentSpelling_of_exponent? {t digits : Text} {small : Bool} {length : Nat}
    (hexponent : exponent? t = some (small, digits, length)) :
    ∃ exponent, ExponentSpelling exponent (some (small, digits)) ∧
      t = exponent ++ t.drop length := by
  rw [exponent?.eq_def] at hexponent
  split at hexponent
  · next mark rest =>
      split at hexponent
      · next hmark =>
          split at hexponent
          · next sign behind =>
              split at hexponent
              · next hsign =>
                  have hsplit := leadingDigits_append_drop behind
                  split at hexponent
                  · cases hexponent
                  · next hne =>
                      cases hexponent
                      have hwritten :
                          sign = CodePoint.ofChar (if sign.is '-' then '-' else '+') := by
                        by_cases hminus : sign.is '-' = true
                        · rw [if_pos hminus, ← CodePoint.eq_ofChar_of_is hminus]
                        · rw [if_neg hminus, ← CodePoint.eq_ofChar_of_is]
                          exact (Bool.or_eq_true _ _ ▸ hsign).resolve_right hminus
                      refine ⟨_, .signed (sign.is '-') hmark (allDigits_leadingDigits behind) hne,
                        ?_⟩
                      rw [← hwritten, List.drop_succ_cons, List.drop_succ_cons, List.cons_append,
                        List.cons_append, hsplit]
              · have hsplit := leadingDigits_append_drop (sign :: behind)
                split at hexponent
                · cases hexponent
                · next hne =>
                    cases hexponent
                    refine ⟨_, .unsigned hmark (allDigits_leadingDigits _) hne, ?_⟩
                    rw [List.drop_succ_cons, List.cons_append, hsplit]
          · cases hexponent
      · cases hexponent
  · cases hexponent

/-- What the scanner takes for a number is written as one. -/
theorem spelled_of_number? {position : Nat} {t : Text} {parts : NumberParts}
    (hparts : number? position t = some parts) :
    ∃ (negative : Bool) (form : NumberForm) (exponent : Text) (stop : Nat) (rest : Text),
      parts = ⟨negative, form.whole, form.fraction, form.exponent, stop, rest⟩ ∧
      ExponentSpelling exponent form.exponent ∧
      t = signText negative ++
        (form.whole ++ (fractionText form.fraction ++ (exponent ++ rest))) := by
  have hsign : t = signText (startsNegative t) ++
      if startsNegative t then t.drop 1 else t := by
    cases t with
    | nil => rfl
    | cons point rest =>
        by_cases hminus : point.is '-' = true
        · rw [startsNegative, hminus, CodePoint.eq_ofChar_of_is hminus]
          rfl
        · rw [startsNegative, Bool.eq_false_iff.mpr hminus]
          rfl
  simp only [number?] at hparts
  generalize (if startsNegative t then t.drop 1 else t) = unsigned at hparts hsign
  split at hparts
  · cases hparts
  · next whole hwhole =>
      obtain ⟨hwhole, hunsigned⟩ := wholeDigits_of_wholeDigits? hwhole
      obtain ⟨hfraction, hbehind⟩ := fractionText_of_fractionDigits (unsigned.drop whole.length)
      split at hparts
      · next small digits length hexponent =>
          obtain ⟨exponent, hspelled, hsplit⟩ := exponentSpelling_of_exponent? hexponent
          cases hparts
          refine ⟨_, ⟨whole, _, some (small, digits), hwhole, hfraction, ?_⟩, exponent, _, _, rfl,
            hspelled, ?_⟩
          · rintro _ _ ⟨⟩
            exact hspelled.digits
          · rw [← hsplit, ← hbehind, ← hunsigned]
            exact hsign
      · cases hparts
        refine ⟨_, ⟨whole, _, none, hwhole, hfraction, ?_⟩, [], _, _, rfl, .absent, ?_⟩
        · rintro _ _ ⟨⟩
        · rw [List.nil_append, ← hbehind, ← hunsigned]
          exact hsign

theorem numeral_of_token {negative : Bool} {form : NumberForm} {exponent : Text} {stop : Nat}
    {rest : Text} {v : Value} (hspelled : ExponentSpelling exponent form.exponent)
    (htoken : NumberParts.token
      ⟨negative, form.whole, form.fraction, form.exponent, stop, rest⟩ = .scalar v) :
    Numeral (signText negative ++ (form.whole ++ (fractionText form.fraction ++ exponent))) v := by
  cases hwhole : form.isWhole with
  | false =>
      rw [token_of_form negative form stop rest hwhole] at htoken
      cases htoken
      exact .real negative form hspelled hwhole
  | true =>
      rw [NumberForm.isWhole, Bool.and_eq_true, List.isEmpty_iff,
        Option.isNone_iff_eq_none] at hwhole
      obtain ⟨hfraction, hexponent⟩ := hwhole
      rw [hexponent] at hspelled htoken
      rw [hfraction] at htoken ⊢
      cases hspelled
      rw [token_of_digits] at htoken
      split at htoken
      · cases htoken
      · next hlength =>
          cases htoken
          rw [fractionText, List.isEmpty_nil, if_pos rfl, List.append_nil, List.append_nil]
          exact .whole negative form.whole_digits (Nat.not_lt.mp hlength)

/-- A number that is read as a value is one in the grammar. -/
theorem numeral_of_number? {position : Nat} {t : Text} {parts : NumberParts} {v : Value}
    (hparts : number? position t = some parts) (htoken : parts.token = .scalar v) :
    ∃ written, t = written ++ parts.rest ∧ Numeral written v := by
  obtain ⟨negative, form, exponent, stop, rest, rfl, hspelled, rfl⟩ := spelled_of_number? hparts
  exact ⟨_, by simp only [List.append_assoc], numeral_of_token hspelled htoken⟩

/-- A number of the grammar is scanned as one token, up to where nothing carries it on. -/
theorem Numeral.number? {written : Text} {v : Value} (hnumeral : Numeral written v)
    (position : Nat) {rest : Text} (hrest : EndsNumber rest) :
    ∃ parts, Json.number? position (written ++ rest) = some parts ∧ parts.token = .scalar v ∧
      parts.rest = rest := by
  cases hnumeral with
  | whole negative hdigits hlength =>
      obtain ⟨stop, hparts⟩ :=
        number?_spelled position negative (.ofDigits hdigits) .absent hrest
      rw [List.append_assoc]
      refine ⟨_, hparts, ?_, rfl⟩
      simp only [NumberForm.ofDigits]
      rw [token_of_digits, if_neg (Nat.not_lt.mpr hlength)]
  | real negative form hspelled hreal =>
      obtain ⟨stop, hparts⟩ := number?_spelled position negative form hspelled hrest
      simp only [List.append_assoc]
      exact ⟨_, hparts, token_of_form negative form stop rest hreal, rfl⟩

theorem Numeral.head {written : Text} {v : Value} (hnumeral : Numeral written v) :
    ∃ negative first more, written = signText negative ++ first :: more ∧
      first.isDigit = true := by
  have hsplit : ∀ {whole : Text}, WholeDigits whole → ∀ behind, ∃ first more,
      whole ++ behind = first :: more ∧ first.isDigit = true := by
    intro whole hwhole behind
    cases whole with
    | nil => exact absurd rfl hwhole.ne_nil
    | cons first more => exact ⟨first, more ++ behind, rfl, hwhole.digits _ List.mem_cons_self⟩
  cases hnumeral with
  | whole negative hdigits _ =>
      obtain ⟨first, more, htext, hfirst⟩ := hsplit hdigits []
      rw [List.append_nil] at htext
      exact ⟨negative, first, more, by rw [htext], hfirst⟩
  | real negative form _ _ =>
      obtain ⟨first, more, htext, hfirst⟩ := hsplit form.whole_digits _
      exact ⟨negative, first, more, by rw [htext], hfirst⟩

/-! ## Lexemes -/

/-- The text of each token that is part of a value. -/
inductive Spells : Token → Text → Prop
  | openArray : Spells .openArray [CodePoint.ofChar '[']
  | closeArray : Spells .closeArray [CodePoint.ofChar ']']
  | openObject : Spells .openObject [CodePoint.ofChar '\x7b']
  | closeObject : Spells .closeObject [CodePoint.ofChar '\x7d']
  | comma : Spells .comma [CodePoint.ofChar ',']
  | colon : Spells .colon [CodePoint.ofChar ':']
  | string {body t : Text} (hcontent : Content body t) : Spells (.string t) (quoted body)
  | literal {word : Text} {v : Value} (hword : Literal word v) : Spells (.scalar v) word
  | number {written : Text} {v : Value} (hnumeral : Numeral written v) :
      Spells (.scalar v) written

/-- Whether a token is part of a value; the others end the text or are faulty. -/
def Token.isPart : Token → Bool
  | .brokenString _ | .longNumber | .junk | .finish => false
  | _ => true

theorem literal_of_mem_words {word : Text × Value} (hmem : word ∈ words) :
    Literal word.1 word.2 := by
  simp only [words, List.mem_cons, List.not_mem_nil, or_false] at hmem
  rcases hmem with rfl | rfl | rfl | rfl | rfl | rfl
  · exact .null
  · exact .true
  · exact .false
  · exact .nan
  · exact .infinity
  · exact .negativeInfinity

theorem NumberParts.token_cases (parts : NumberParts) :
    parts.token = .longNumber ∨ ∃ v, parts.token = .scalar v := by
  rw [NumberParts.token]
  split
  · split
    · exact .inl rfl
    · exact .inr ⟨_, rfl⟩
  · exact .inr ⟨_, rfl⟩

theorem spells_of_punctuation? {point : CodePoint} {token : Token}
    (htoken : punctuation? point = some token) : Spells token [point] ∧ token.isPart = true := by
  rw [punctuation?] at htoken
  split at htoken
  · next his => cases htoken; exact ⟨CodePoint.eq_ofChar_of_is his ▸ .openArray, rfl⟩
  split at htoken
  · next his => cases htoken; exact ⟨CodePoint.eq_ofChar_of_is his ▸ .closeArray, rfl⟩
  split at htoken
  · next hvalue =>
      cases htoken
      have hbrace : point = CodePoint.ofChar '\x7b' := CodePoint.eq_of_value hvalue
      exact ⟨hbrace ▸ .openObject, rfl⟩
  split at htoken
  · next hvalue =>
      cases htoken
      have hbrace : point = CodePoint.ofChar '\x7d' := CodePoint.eq_of_value hvalue
      exact ⟨hbrace ▸ .closeObject, rfl⟩
  split at htoken
  · next his => cases htoken; exact ⟨CodePoint.eq_ofChar_of_is his ▸ .comma, rfl⟩
  split at htoken
  · next his => cases htoken; exact ⟨CodePoint.eq_ofChar_of_is his ▸ .colon, rfl⟩
  · cases htoken

/-- What the scanner finds at the start of a text that does not start with a blank: a part that is
spelled there, a fault, or the end. -/
theorem lexemeAt_cases {position : Nat} {t : Text} {lexeme : Lexeme}
    (hlexeme : lexemeAt position t = lexeme) :
    (∃ front, t = front ++ lexeme.rest ∧ Spells lexeme.token front ∧
      lexeme.token.isPart = true) ∨
    (lexeme.token.isPart = false ∧ (lexeme.token = .finish → t = [])) := by
  cases t with
  | nil =>
      subst hlexeme
      exact .inr ⟨rfl, fun _ => rfl⟩
  | cons point rest =>
      rw [lexemeAt] at hlexeme
      split at hlexeme
      · next token htoken =>
          subst hlexeme
          exact .inl ⟨[point], rfl, spells_of_punctuation? htoken⟩
      split at hlexeme
      · next hquote =>
          split at hlexeme
          · next content stop behind hscan =>
              subst hlexeme
              obtain ⟨body, rfl, hspelled⟩ := spelled_of_scanString hscan
              refine .inl ⟨quoted body, ?_, .string hspelled.content, rfl⟩
              rw [quoted, CodePoint.eq_ofChar_of_is hquote, List.cons_append, List.append_assoc]
              rfl
          · subst hlexeme
            exact .inr ⟨rfl, fun hfinish => by cases hfinish⟩
      split at hlexeme
      · next word value hfind =>
          subst hlexeme
          have hstarts := List.find?_some (p := fun word : Text × Value =>
            word.1.isPrefixOf (point :: rest)) hfind
          refine .inl ⟨word, ?_, .literal (literal_of_mem_words (List.mem_of_find?_eq_some hfind)),
            rfl⟩
          exact (List.prefix_iff_eq_append.mp (List.isPrefixOf_iff_prefix.mp hstarts)).symm
      split at hlexeme
      · next parts hparts =>
          subst hlexeme
          simp only
          rcases parts.token_cases with htoken | ⟨v, htoken⟩
          · rw [htoken]
            exact .inr ⟨rfl, fun hfinish => by cases hfinish⟩
          · obtain ⟨written, hwritten, hnumeral⟩ := numeral_of_number? hparts htoken
            rw [htoken]
            exact .inl ⟨written, hwritten, .number hnumeral, rfl⟩
      · subst hlexeme
        exact .inr ⟨rfl, fun hfinish => by cases hfinish⟩

/-- A token that is part of a value is spelled at the start of the text, behind blanks. -/
theorem spells_of_nextLexeme {position : Nat} {t : Text}
    (hpart : (nextLexeme position t).token.isPart = true) :
    ∃ gap front, t = gap ++ (front ++ (nextLexeme position t).rest) ∧ Blanks gap ∧
      Spells (nextLexeme position t).token front := by
  rw [nextLexeme] at hpart ⊢
  rcases lexemeAt_cases (t := t.dropWhile isBlank) rfl with
    ⟨front, hfront, hspells, -⟩ | ⟨hfaulty, -⟩
  · refine ⟨t.takeWhile isBlank, front, ?_, List.all_eq_true.mp List.all_takeWhile, hspells⟩
    rw [← hfront, List.takeWhile_append_dropWhile]
  · rw [hfaulty] at hpart
    cases hpart

/-- Nothing but blanks is in front of the end. -/
theorem blanks_of_nextLexeme {position : Nat} {t : Text}
    (hfinish : (nextLexeme position t).token = .finish) : Blanks t := by
  rw [nextLexeme] at hfinish
  rcases lexemeAt_cases (t := t.dropWhile isBlank) rfl with ⟨_, -, -, hpart⟩ | ⟨-, hend⟩
  · rw [hfinish] at hpart
    cases hpart
  · intro point hmem
    exact List.dropWhile_eq_nil_iff.mp (hend hfinish) point hmem

/-- Blanks in front of a lexeme are skipped. -/
theorem Lexes.behind {gap t rest : Text} {token : Token} (hgap : Blanks gap)
    (hlexes : Lexes t token rest) : Lexes (gap ++ t) token rest := by
  intro position
  obtain ⟨start, stop, hlexeme⟩ := hlexes (position + gap.length)
  refine ⟨start, stop, ?_⟩
  rw [← hlexeme, nextLexeme, nextLexeme, List.append_assoc, List.takeWhile_append_of_pos hgap,
    List.dropWhile_append_of_pos hgap, List.length_append, Nat.add_assoc]

theorem lexes_content {body t : Text} (hcontent : Content body t) (rest : Text) :
    Lexes (quoted body) (.string t) rest := by
  intro position
  obtain ⟨content, hspelled, rfl⟩ := hcontent.spelled
  obtain ⟨stop, hscan⟩ := scanString_of_spelled position hspelled (position + 1) rest
  have htext : quoted body ++ rest =
      CodePoint.ofChar '"' :: (body ++ CodePoint.ofChar '"' :: rest) := by
    rw [quoted, List.cons_append, List.append_assoc, List.singleton_append]
  have hpunctuation : punctuation? (CodePoint.ofChar '"') = none := rfl
  refine ⟨position, stop, ?_⟩
  rw [htext, nextLexeme_of_head position rfl, lexemeAt, hpunctuation]
  simp only
  rw [if_pos (by decide), hscan]

theorem lexes_literal {word : Text} {v : Value} (hword : Literal word v) (rest : Text) :
    Lexes word (.scalar v) rest := by
  intro position
  cases hword <;> exact ⟨position, position + _, rfl⟩

theorem lexes_numeral {written : Text} {v : Value} (hnumeral : Numeral written v) {rest : Text}
    (hrest : EndsNumber rest) : Lexes written (.scalar v) rest := by
  intro position
  obtain ⟨parts, hparts, htoken, hbehind⟩ := hnumeral.number? position hrest
  obtain ⟨negative, first, more, rfl, hdigit⟩ := hnumeral.head
  rw [List.append_assoc, List.cons_append] at hparts ⊢
  refine ⟨position, parts.stop, ?_⟩
  rw [nextLexeme_signed position negative hdigit hparts, htoken, hbehind]

end SealedCall.Json
