import SealedCall.Proofs.Json.GrammarTokens

/-! # How deep a text nests

The nesting of a text is the greatest number of brackets and braces that are open at once in it,
where those inside strings do not count. It is told of any text, whether or not it is one of a
value, and it bounds how many containers a reader has open wherever it stops.
-/

namespace SealedCall.Json

/-- Where a place in a text is with respect to strings. -/
inductive Place
  | outside
  | inside
  | escaped

/-- The greatest number of open containers from a place with some of them open. -/
def peak : Place → Nat → Text → Nat
  | _, depth, [] => depth
  | .outside, depth, point :: rest =>
    if point.is '"' then peak .inside depth rest
    else if point.is '[' || point.is '\x7b' then peak .outside (depth + 1) rest
    else if point.is ']' || point.is '\x7d' then max depth (peak .outside (depth - 1) rest)
    else peak .outside depth rest
  | .inside, depth, point :: rest =>
    if point.is '\\' then peak .escaped depth rest
    else if point.is '"' then peak .outside depth rest
    else peak .inside depth rest
  | .escaped, depth, _ :: rest => peak .inside depth rest

/-- The greatest number of containers that are open at once in a text. -/
def nesting (t : Text) : Nat := peak .outside 0 t

/-- The number of open containers never drops below what is counted already. -/
theorem le_peak (place : Place) (depth : Nat) (t : Text) : depth ≤ peak place depth t := by
  fun_induction peak place depth t with
  | case1 => exact Nat.le_refl _
  | case2 _ _ _ _ ih => exact ih
  | case3 _ _ _ _ _ ih => omega
  | case4 _ _ _ _ _ _ => exact Nat.le_max_left _ _
  | case5 _ _ _ _ _ _ ih => exact ih
  | case6 _ _ _ _ ih => exact ih
  | case7 _ _ _ _ _ ih => exact ih
  | case8 _ _ _ _ _ ih => exact ih
  | case9 _ _ _ ih => exact ih

/-! ## How parts of a text change what is open -/

/-- Whether behind a part of a text, with one number of containers open before it and another one
after it, no more are open at once than there are from its start. -/
def Shifts (t : Text) (before after : Nat) : Prop :=
  ∀ rest, peak .outside after rest ≤ peak .outside before (t ++ rest)

theorem Shifts.trans {front back : Text} {before between after : Nat}
    (hfront : Shifts front before between) (hback : Shifts back between after) :
    Shifts (front ++ back) before after := by
  intro rest
  rw [List.append_assoc]
  exact (hback rest).trans (hfront (back ++ rest))

/-- Whether a code point has no part in what is open. -/
def isFlat (point : CodePoint) : Bool :=
  !(point.is '"' || point.is '[' || point.is ']' || point.is '\x7b' || point.is '\x7d')

theorem shifts_of_isFlat {t : Text} (hflat : ∀ point ∈ t, isFlat point = true) (depth : Nat) :
    Shifts t depth depth := by
  intro rest
  induction t with
  | nil => exact Nat.le_refl _
  | cons point t ih =>
      obtain ⟨hpoint, ht⟩ := List.forall_mem_cons.mp hflat
      simp only [isFlat, Bool.not_eq_true', Bool.or_eq_false_iff] at hpoint
      obtain ⟨⟨⟨⟨hquote, hopen⟩, hclose⟩, hopenBrace⟩, hcloseBrace⟩ := hpoint
      rw [List.cons_append, peak]
      simp only [hquote, hopen, hclose, hopenBrace, hcloseBrace, Bool.or_self,
        Bool.false_eq_true, if_false]
      exact ih ht

theorem shifts_blanks {gap : Text} (hgap : Blanks gap) (depth : Nat) : Shifts gap depth depth := by
  refine shifts_of_isFlat (fun point hmem => ?_) depth
  have hvalue := hgap point hmem
  simp only [isBlank, Bool.or_eq_true, CodePoint.is_iff] at hvalue
  simp only [isFlat, Bool.not_eq_true', Bool.or_eq_false_iff, CodePoint.is_eq_false_iff]
  simp only [show ' '.toNat = 32 from rfl, show '\t'.toNat = 9 from rfl,
    show '\n'.toNat = 10 from rfl, show '\r'.toNat = 13 from rfl] at hvalue
  simp only [show '"'.toNat = 34 from rfl, show '['.toNat = 91 from rfl,
    show ']'.toNat = 93 from rfl, show '\x7b'.toNat = 123 from rfl,
    show '\x7d'.toNat = 125 from rfl]
  omega

theorem isFlat_of_isDigit {point : CodePoint} (hdigit : point.isDigit = true) :
    isFlat point = true := by
  have hother : ∀ c : Char, c.toNat < 0x30 ∨ 0x39 < c.toNat → point.is c = false :=
    fun c => CodePoint.is_eq_false_of_isDigit hdigit
  rw [isFlat, hother '"' (by decide), hother '[' (by decide), hother ']' (by decide),
    hother '\x7b' (by decide), hother '\x7d' (by decide)]
  rfl

theorem shifts_digits {digits : Text} (hdigits : AllDigits digits) (depth : Nat) :
    Shifts digits depth depth :=
  shifts_of_isFlat (fun point hmem => isFlat_of_isDigit (hdigits point hmem)) depth

theorem shifts_point {point : CodePoint} (hflat : isFlat point = true) (depth : Nat) :
    Shifts [point] depth depth :=
  shifts_of_isFlat (fun _ hmem => List.mem_singleton.mp hmem ▸ hflat) depth

theorem shifts_exponent {exponent : Text} {parts : Option (Bool × Text)}
    (hspelled : ExponentSpelling exponent parts) (depth : Nat) : Shifts exponent depth depth := by
  have hmark : ∀ {mark : CodePoint}, (mark.is 'e' || mark.is 'E') = true →
      Shifts [mark] depth depth := by
    intro mark hmark
    rw [Bool.or_eq_true] at hmark
    rcases hmark with hmark | hmark <;>
      exact shifts_point (CodePoint.eq_ofChar_of_is hmark ▸ by decide) depth
  cases hspelled with
  | absent => exact fun _ => Nat.le_refl _
  | unsigned hletter hdigits _ => exact (hmark hletter).trans (shifts_digits hdigits depth)
  | signed small hletter hdigits _ =>
      have hsign : Shifts [CodePoint.ofChar (if small then '-' else '+')] depth depth :=
        shifts_point (by cases small <;> decide) depth
      exact (hmark hletter).trans (hsign.trans (shifts_digits hdigits depth))

theorem shifts_numeral {written : Text} {v : Value} (hnumeral : Numeral written v) (depth : Nat) :
    Shifts written depth depth := by
  have hsign : ∀ negative, Shifts (signText negative) depth depth := fun negative =>
    shifts_of_isFlat (by cases negative <;> decide) depth
  cases hnumeral with
  | whole negative hdigits _ => exact (hsign negative).trans (shifts_digits hdigits.digits depth)
  | real negative form hspelled _ =>
      have hfraction : Shifts (fractionText form.fraction) depth depth := by
        rw [fractionText]
        split
        · exact fun _ => Nat.le_refl _
        · exact (shifts_point (by decide) depth).trans (shifts_digits form.fraction_digits depth)
      exact (hsign negative).trans ((shifts_digits form.whole_digits.digits depth).trans
        (hfraction.trans (shifts_exponent hspelled depth)))

theorem shifts_literal {word : Text} {v : Value} (hword : Literal word v) (depth : Nat) :
    Shifts word depth depth := by
  refine shifts_of_isFlat ?_ depth
  cases hword <;> decide

/-! ## Strings -/

theorem hexDigit_inside {point : CodePoint} {n : Nat} (hdigit : point.hexValue? = some n) :
    point.is '\\' = false ∧ point.is '"' = false := by
  simp only [CodePoint.hexValue?] at hdigit
  rw [CodePoint.is_eq_false_iff, CodePoint.is_eq_false_iff]
  have hbackslash : '\\'.toNat = 92 := rfl
  have hquote : '"'.toNat = 34 := rfl
  split at hdigit
  · next hvalue =>
      have := CodePoint.within_iff.mp hvalue
      omega
  split at hdigit
  · next hvalue =>
      have := CodePoint.within_iff.mp hvalue
      omega
  split at hdigit
  · next hvalue =>
      have := CodePoint.within_iff.mp hvalue
      omega
  · cases hdigit

theorem peak_inside_cons {point : CodePoint} (hbackslash : point.is '\\' = false)
    (hquote : point.is '"' = false) (depth : Nat) (rest : Text) :
    peak .inside depth (point :: rest) = peak .inside depth rest := by
  rw [peak, hbackslash, hquote, if_neg Bool.false_ne_true, if_neg Bool.false_ne_true]

theorem peak_inside_escape (letter : CodePoint) (depth : Nat) (rest : Text) :
    peak .inside depth (CodePoint.ofChar '\\' :: letter :: rest) = peak .inside depth rest := by
  rw [peak, if_pos (by decide), peak]

theorem peak_inside_unit {written : Text} {unit : CodePoint} (hunit : UnitEscape written unit)
    (depth : Nat) (rest : Text) :
    peak .inside depth (written ++ rest) = peak .inside depth rest := by
  obtain ⟨a, b, c, d, i, j, k, l, rfl, ha, hb, hc, hd, -⟩ := hunit
  simp only [List.cons_append, List.nil_append]
  rw [peak_inside_escape,
    peak_inside_cons (hexDigit_inside ha).1 (hexDigit_inside ha).2,
    peak_inside_cons (hexDigit_inside hb).1 (hexDigit_inside hb).2,
    peak_inside_cons (hexDigit_inside hc).1 (hexDigit_inside hc).2,
    peak_inside_cons (hexDigit_inside hd).1 (hexDigit_inside hd).2]

/-- The inside of a string ends inside of it. -/
theorem peak_inside_content {body t : Text} (hcontent : Content body t) (depth : Nat)
    (rest : Text) : peak .inside depth (body ++ rest) = peak .inside depth rest := by
  induction hcontent with
  | nil => rfl
  | plain _ hquote hbackslash _ ih =>
      rw [List.cons_append, peak_inside_cons hbackslash hquote, ih]
  | letter _ _ ih => rw [List.cons_append, List.cons_append, peak_inside_escape, ih]
  | pair hfirst hsecond _ _ _ ih =>
      rw [List.append_assoc, List.append_assoc, peak_inside_unit hfirst, peak_inside_unit hsecond,
        ih]
  | unit hunit _ _ ih => rw [List.append_assoc, peak_inside_unit hunit, ih]

theorem shifts_quoted {body t : Text} (hcontent : Content body t) (depth : Nat) :
    Shifts (quoted body) depth depth := by
  intro rest
  rw [quoted, List.cons_append, List.append_assoc, List.singleton_append, peak,
    if_pos (by decide), peak_inside_content hcontent, peak, if_neg (by decide),
    if_pos (by decide)]

/-! ## Brackets -/

theorem peak_open {opening : CodePoint} (hquote : opening.is '"' = false)
    (hopening : (opening.is '[' || opening.is '\x7b') = true) (depth : Nat) (rest : Text) :
    peak .outside depth (opening :: rest) = peak .outside (depth + 1) rest := by
  rw [peak, hquote, if_neg Bool.false_ne_true, if_pos hopening]

theorem shifts_open {opening : CodePoint} (hquote : opening.is '"' = false)
    (hopening : (opening.is '[' || opening.is '\x7b') = true) (depth : Nat) :
    Shifts [opening] depth (depth + 1) :=
  fun rest => (peak_open hquote hopening depth rest).ge

theorem shifts_close {closing : CodePoint} (hquote : closing.is '"' = false)
    (hopening : (closing.is '[' || closing.is '\x7b') = false)
    (hclosing : (closing.is ']' || closing.is '\x7d') = true) (depth : Nat) :
    Shifts [closing] depth (depth - 1) := by
  intro rest
  rw [List.singleton_append, peak, hquote, hopening, hclosing, if_neg Bool.false_ne_true,
    if_neg Bool.false_ne_true, if_pos rfl]
  exact Nat.le_max_right _ _

/-- How many containers are open behind a token. -/
def Token.depthBehind : Token → Nat → Nat
  | .openArray, depth | .openObject, depth => depth + 1
  | .closeArray, depth | .closeObject, depth => depth - 1
  | _, depth => depth

theorem Spells.shifts {token : Token} {front : Text} (hspells : Spells token front) (depth : Nat) :
    Shifts front depth (token.depthBehind depth) := by
  cases hspells with
  | openArray => exact shifts_open (by decide) (by decide) depth
  | closeArray => exact shifts_close (by decide) (by decide) (by decide) depth
  | openObject => exact shifts_open (by decide) (by decide) depth
  | closeObject => exact shifts_close (by decide) (by decide) (by decide) depth
  | comma => exact shifts_point (by decide) depth
  | colon => exact shifts_point (by decide) depth
  | string hcontent => exact shifts_quoted hcontent depth
  | literal hword => exact shifts_literal hword depth
  | number hnumeral => exact shifts_numeral hnumeral depth

/-- Every phrase closes whatever it opens. -/
theorem Derives.shifts {t : Text} {phrase : Phrase} (hderives : Derives t phrase) (depth : Nat) :
    Shifts t depth depth := by
  have hcomma : ∀ depth, Shifts [CodePoint.ofChar ','] depth depth := shifts_point (by decide)
  have hcolon : ∀ depth, Shifts [CodePoint.ofChar ':'] depth depth := shifts_point (by decide)
  have harray : ∀ {inner : Text}, (∀ depth, Shifts inner depth depth) → ∀ depth,
      Shifts (CodePoint.ofChar '[' :: (inner ++ [CodePoint.ofChar ']'])) depth depth :=
    fun hinner depth => (shifts_open (by decide) (by decide) depth).trans
      ((hinner (depth + 1)).trans (shifts_close (by decide) (by decide) (by decide) (depth + 1)))
  have hobject : ∀ {inner : Text}, (∀ depth, Shifts inner depth depth) → ∀ depth,
      Shifts (CodePoint.ofChar '\x7b' :: (inner ++ [CodePoint.ofChar '\x7d'])) depth depth :=
    fun hinner depth => (shifts_open (by decide) (by decide) depth).trans
      ((hinner (depth + 1)).trans (shifts_close (by decide) (by decide) (by decide) (depth + 1)))
  induction hderives generalizing depth with
  | literal hword => exact shifts_literal hword depth
  | number hnumeral => exact shifts_numeral hnumeral depth
  | string hcontent => exact shifts_quoted hcontent depth
  | emptyArray hgap => exact harray (shifts_blanks hgap) depth
  | array _ ih => exact harray ih depth
  | emptyObject hgap => exact hobject (shifts_blanks hgap) depth
  | object _ ih => exact hobject ih depth
  | lastItem hbefore _ hbehind ih =>
      exact (shifts_blanks hbefore depth).trans ((ih depth).trans (shifts_blanks hbehind depth))
  | nextItem hbefore _ hbehind _ ih ihrest =>
      exact (shifts_blanks hbefore depth).trans ((ih depth).trans
        ((shifts_blanks hbehind depth).trans ((hcomma depth).trans (ihrest depth))))
  | lastMember hbefore hkey hmiddle hgap _ hbehind ih =>
      exact (shifts_blanks hbefore depth).trans ((shifts_quoted hkey depth).trans
        ((shifts_blanks hmiddle depth).trans ((hcolon depth).trans
          ((shifts_blanks hgap depth).trans ((ih depth).trans (shifts_blanks hbehind depth))))))
  | nextMember hbefore hkey hmiddle hgap _ hbehind _ ih ihrest =>
      exact (shifts_blanks hbefore depth).trans ((shifts_quoted hkey depth).trans
        ((shifts_blanks hmiddle depth).trans ((hcolon depth).trans
          ((shifts_blanks hgap depth).trans ((ih depth).trans
            ((shifts_blanks hbehind depth).trans ((hcomma depth).trans (ihrest depth))))))))

end SealedCall.Json
