import SealedCall.Json.Token
import SealedCall.Proofs.Number.ReadingBack

/-! # Written numbers as tokens

A number is written as a sign, whole digits, and possibly a fraction and an exponent. The scanner
finds exactly these parts when nothing behind them could carry the number on. The parts of a whole
number have its value, and those of a binary number have a value that is nearest to it.
-/

namespace SealedCall.Json

/-! ## Runs of digits -/

/-- Whether a text consists of decimal digits. -/
def AllDigits (t : Text) : Prop := ∀ point ∈ t, point.isDigit = true

/-- Whether a text does not go on with a decimal digit. -/
def NoDigit (rest : Text) : Prop := ∀ point, rest.head? = some point → point.isDigit = false

theorem allDigits_ofNat (n : Nat) : AllDigits (Text.ofNat n) := fun _ => Text.isDigit_of_mem_ofNat

theorem allDigits_zeros (count : Nat) : AllDigits (Text.replicate count '0') := by
  intro point hmem
  rw [(List.mem_replicate.mp hmem).2]
  rfl

theorem allDigits_append {front back : Text} (hfront : AllDigits front) (hback : AllDigits back) :
    AllDigits (front ++ back) := by
  intro point hmem
  rcases List.mem_append.mp hmem with h | h
  · exact hfront point h
  · exact hback point h

theorem noDigit_cons {point : CodePoint} {rest : Text} (hpoint : point.isDigit = false) :
    NoDigit (point :: rest) := by
  intro head hhead
  cases hhead
  exact hpoint

theorem leadingDigits_append {digits rest : Text} (hdigits : AllDigits digits)
    (hrest : NoDigit rest) : leadingDigits (digits ++ rest) = digits := by
  rw [leadingDigits, List.takeWhile_append_of_pos hdigits]
  cases rest with
  | nil => simp
  | cons point rest => rw [List.takeWhile_cons_of_neg (by simp [hrest point rfl]), List.append_nil]

/-! ## The parts of a number -/

/-- The digits before the point of a written number: at least one, and no zero in front of
others. -/
structure WholeDigits (whole : Text) : Prop where
  digits : AllDigits whole
  ne_nil : whole ≠ []
  leading : whole.length = 1 ∨ ∀ first, whole.head? = some first → first.is '0' = false

theorem wholeDigits?_append {whole rest : Text} (hwhole : WholeDigits whole)
    (hrest : NoDigit rest) : wholeDigits? (whole ++ rest) = some whole := by
  rw [wholeDigits?, leadingDigits_append hwhole.digits hrest]
  cases whole with
  | nil => exact absurd rfl hwhole.ne_nil
  | cons first more =>
      simp only
      rcases hwhole.leading with hone | hzero
      · obtain rfl : more = [] := List.eq_nil_of_length_eq_zero (by simpa using hone)
        split <;> rfl
      · rw [if_neg (by rw [hzero first rfl]; decide)]

theorem wholeDigits_ofNat (n : Nat) : WholeDigits (Text.ofNat n) := by
  refine ⟨allDigits_ofNat n, Text.ofNat_ne_nil n, ?_⟩
  by_cases hzero : n = 0
  · subst hzero
    exact .inl rfl
  · refine .inr fun first hfirst => ?_
    obtain ⟨rest, hdigits⟩ := List.head?_eq_some_iff.mp hfirst
    exact Text.head_ofNat (Nat.pos_of_ne_zero hzero) hdigits

/-- A fraction behind its point, when there is one. -/
def fractionText (fraction : Text) : Text :=
  if fraction.isEmpty then [] else CodePoint.ofChar '.' :: fraction

/-- An exponent behind its mark, when there is one. -/
def exponentText : Option (Bool × Text) → Text
  | none => []
  | some (small, digits) =>
    CodePoint.ofChar 'e' :: CodePoint.ofChar (if small then '-' else '+') :: digits

/-- The ways to write an exponent: its mark is a letter of either case, and a plus sign may be left
out. -/
inductive ExponentSpelling : Text → Option (Bool × Text) → Prop
  | absent : ExponentSpelling [] none
  | unsigned {mark : CodePoint} {digits : Text} (hmark : (mark.is 'e' || mark.is 'E') = true)
      (hdigits : AllDigits digits) (hne : digits ≠ []) :
      ExponentSpelling (mark :: digits) (some (false, digits))
  | signed {mark : CodePoint} {digits : Text} (small : Bool)
      (hmark : (mark.is 'e' || mark.is 'E') = true) (hdigits : AllDigits digits)
      (hne : digits ≠ []) :
      ExponentSpelling (mark :: CodePoint.ofChar (if small then '-' else '+') :: digits)
        (some (small, digits))

/-- A sign, when the number is negative. -/
def signText (negative : Bool) : Text := if negative then [CodePoint.ofChar '-'] else []

/-- Whether nothing at the start of a text could carry a number on. -/
def EndsNumber (rest : Text) : Prop :=
  ∀ point, rest.head? = some point → point.isDigit = false ∧ point.is '.' = false ∧
    point.is 'e' = false ∧ point.is 'E' = false

theorem EndsNumber.noDigit {rest : Text} (hrest : EndsNumber rest) : NoDigit rest :=
  fun point hpoint => (hrest point hpoint).1

theorem exponent?_of_endsNumber {rest : Text} (hrest : EndsNumber rest) :
    exponent? rest = none := by
  cases rest with
  | nil => rfl
  | cons point rest =>
      obtain ⟨_, _, hsmall, hlarge⟩ := hrest point rfl
      rw [exponent?.eq_def]
      simp only
      rw [if_neg (by rw [hsmall, hlarge]; decide)]

theorem ExponentSpelling.of_mark {mark : CodePoint} (hmark : (mark.is 'e' || mark.is 'E') = true) :
    mark.isDigit = false ∧ mark.is '.' = false := by
  rw [Bool.or_eq_true, CodePoint.is_iff, CodePoint.is_iff] at hmark
  rw [CodePoint.isDigit, CodePoint.within_eq_false_iff, CodePoint.is_eq_false_iff]
  have hvalue : mark.value = 101 ∨ mark.value = 69 := hmark
  have hpoint : '.'.toNat = 46 := rfl
  omega

theorem ExponentSpelling.digits {exponent digits : Text} {small : Bool}
    (hspelled : ExponentSpelling exponent (some (small, digits))) :
    AllDigits digits ∧ digits ≠ [] := by
  cases hspelled with
  | unsigned _ hdigits hne => exact ⟨hdigits, hne⟩
  | signed _ _ hdigits hne => exact ⟨hdigits, hne⟩

/-- The scanner finds a spelled exponent and tells how long it is. -/
theorem exponent?_spelled {exponent : Text} {small : Bool} {digits rest : Text}
    (hspelled : ExponentSpelling exponent (some (small, digits))) (hrest : NoDigit rest) :
    exponent? (exponent ++ rest) = some (small, digits, exponent.length) := by
  cases hspelled with
  | unsigned hmark hdigits hne =>
      cases digits with
      | nil => exact absurd rfl hne
      | cons first more =>
          have hfirst := hdigits first List.mem_cons_self
          have hsign : ¬ (first.is '+' || first.is '-') = true := by
            rw [CodePoint.is_eq_false_of_isDigit hfirst (.inl (by decide)),
              CodePoint.is_eq_false_of_isDigit hfirst (.inl (by decide))]
            decide
          rw [List.cons_append, List.cons_append, exponent?, if_pos hmark, if_neg hsign,
            ← List.cons_append, leadingDigits_append hdigits hrest]
          rfl
  | signed _ hmark hdigits hne =>
      have hsign : ((CodePoint.ofChar (if small then '-' else '+')).is '+' ||
          (CodePoint.ofChar (if small then '-' else '+')).is '-') = true := by cases small <;> rfl
      have hminus : (CodePoint.ofChar (if small then '-' else '+')).is '-' = small := by
        cases small <;> rfl
      rw [List.cons_append, List.cons_append, exponent?, if_pos hmark, if_pos hsign,
        leadingDigits_append hdigits hrest, hminus]
      cases digits with
      | nil => exact absurd rfl hne
      | cons first more => rfl

/-- Behind the whole digits stand a fraction and an exponent, which the scanner tells apart. -/
theorem fractionDigits_append {fraction : Text} {rest : Text} (hfraction : AllDigits fraction)
    (hrest : NoDigit rest) (hpoint : ∀ point, rest.head? = some point → point.is '.' = false) :
    fractionDigits (fractionText fraction ++ rest) = fraction := by
  cases fraction with
  | nil =>
      cases rest with
      | nil => rfl
      | cons point rest =>
          simp only [fractionText, List.isEmpty_nil, if_true, List.nil_append]
          rw [fractionDigits, hpoint point rfl]
          rfl
  | cons first more =>
      simp only [fractionText, List.isEmpty_cons, Bool.false_eq_true, if_false, List.cons_append]
      rw [fractionDigits, if_pos (by decide)]
      rw [← List.cons_append]
      exact leadingDigits_append hfraction hrest

theorem noDigit_exponent_append {exponent : Text} {parts : Option (Bool × Text)}
    (hspelled : ExponentSpelling exponent parts) {rest : Text} (hrest : NoDigit rest) :
    NoDigit (exponent ++ rest) := by
  cases hspelled with
  | absent => exact hrest
  | unsigned hmark _ _ => exact noDigit_cons (ExponentSpelling.of_mark hmark).1
  | signed _ hmark _ _ => exact noDigit_cons (ExponentSpelling.of_mark hmark).1

theorem noDigit_fractionText_append {fraction rest : Text} (hrest : NoDigit rest) :
    NoDigit (fractionText fraction ++ rest) := by
  cases fraction with
  | nil => exact hrest
  | cons first more => exact noDigit_cons rfl

theorem noPoint_exponent_append {exponent : Text} {parts : Option (Bool × Text)}
    (hspelled : ExponentSpelling exponent parts) {rest : Text} (hrest : EndsNumber rest) :
    ∀ point, (exponent ++ rest).head? = some point → point.is '.' = false := by
  intro point hpoint
  cases hspelled with
  | absent => exact (hrest point hpoint).2.1
  | unsigned hmark _ _ =>
      cases hpoint
      exact (ExponentSpelling.of_mark hmark).2
  | signed _ hmark _ _ =>
      cases hpoint
      exact (ExponentSpelling.of_mark hmark).2

theorem length_fractionText (fraction : Text) :
    (fractionText fraction).length = if fraction.isEmpty then 0 else fraction.length + 1 := by
  rw [fractionText]
  split <;> rfl

theorem startsNegative_append (negative : Bool) {whole behind : Text}
    (hwhole : WholeDigits whole) :
    startsNegative (signText negative ++ (whole ++ behind)) = negative := by
  cases negative with
  | true => rfl
  | false =>
      cases whole with
      | nil => exact absurd rfl hwhole.ne_nil
      | cons first more =>
          exact CodePoint.is_eq_false_of_isDigit (hwhole.digits first List.mem_cons_self)
            (.inl (by decide))

/-- The digits of an unsigned number as it is written, with what makes them a number. -/
structure NumberForm where
  whole : Text
  fraction : Text
  exponent : Option (Bool × Text)
  whole_digits : WholeDigits whole
  fraction_digits : AllDigits fraction
  exponent_digits : ∀ small digits, exponent = some (small, digits) →
    AllDigits digits ∧ digits ≠ []

namespace NumberForm

/-- The text of the digits. -/
def text (form : NumberForm) : Text :=
  form.whole ++ (fractionText form.fraction ++ exponentText form.exponent)

/-- Whether there are only digits before the point. -/
def isWhole (form : NumberForm) : Bool := form.fraction.isEmpty && form.exponent.isNone

/-- The power of ten of an exponent. -/
def power (form : NumberForm) : Int :=
  match form.exponent with
  | some (small, digits) =>
    if small then -(Text.decimalValue digits : Int) else Text.decimalValue digits
  | none => 0

/-- The number that the digits write. -/
def decimal (form : NumberForm) : Decimal :=
  ⟨Text.decimalValue (form.whole ++ form.fraction), form.power - form.fraction.length⟩

end NumberForm

/-- The canonical text of an exponent is one way to write it. -/
theorem NumberForm.exponentSpelling (form : NumberForm) :
    ExponentSpelling (exponentText form.exponent) form.exponent := by
  cases hexponent : form.exponent with
  | none => exact .absent
  | some parts =>
      obtain ⟨small, digits⟩ := parts
      obtain ⟨hdigits, hne⟩ := form.exponent_digits small digits hexponent
      exact .signed small (by decide) hdigits hne

/-- The scanner finds the parts of a number, however its exponent is spelled, and what stands behind
them. -/
theorem number?_spelled (position : Nat) (negative : Bool) (form : NumberForm)
    {exponent rest : Text} (hspelled : ExponentSpelling exponent form.exponent)
    (hrest : EndsNumber rest) :
    ∃ stop, number? position
        (signText negative ++ (form.whole ++ (fractionText form.fraction ++ (exponent ++ rest)))) =
      some ⟨negative, form.whole, form.fraction, form.exponent, stop, rest⟩ := by
  obtain ⟨whole, fraction, parts, hwhole, hfraction, _⟩ := form
  simp only at hspelled
  have hbehind : NoDigit (exponent ++ rest) := noDigit_exponent_append hspelled hrest.noDigit
  have hunsigned : ∀ t : Text, (if negative = true then (signText negative ++ t).drop 1
      else signText negative ++ t) = t := by
    intro t
    cases negative <;> rfl
  simp only [number?, startsNegative_append negative hwhole, hunsigned]
  rw [wholeDigits?_append hwhole (noDigit_fractionText_append hbehind)]
  simp only [List.drop_left]
  rw [fractionDigits_append hfraction hbehind (noPoint_exponent_append hspelled hrest),
    ← length_fractionText, List.drop_left]
  cases parts with
  | none =>
      cases hspelled
      rw [List.nil_append, exponent?_of_endsNumber hrest]
      exact ⟨_, rfl⟩
  | some parts =>
      rw [exponent?_spelled hspelled hrest.noDigit]
      simp only [List.drop_left]
      exact ⟨_, rfl⟩

/-- The scanner finds the parts of a written number, and what stands behind them. -/
theorem number?_written (position : Nat) (negative : Bool) (form : NumberForm) {rest : Text}
    (hrest : EndsNumber rest) :
    ∃ stop, number? position (signText negative ++ form.text ++ rest) =
      some ⟨negative, form.whole, form.fraction, form.exponent, stop, rest⟩ := by
  simp only [NumberForm.text, List.append_assoc]
  exact number?_spelled position negative form form.exponentSpelling hrest

/-- Whether a written number in front of another text is scanned as the given token. -/
def ScansNumber (t : Text) (token : Token) (rest : Text) : Prop :=
  (∃ negative, ∃ form : NumberForm, t = signText negative ++ form.text) ∧
    ∀ position, ∃ parts : NumberParts,
      number? position (t ++ rest) = some parts ∧ parts.token = token ∧ parts.rest = rest

/-! ## Whole numbers -/

/-- The token of digits alone. -/
theorem token_of_digits (negative : Bool) (whole : Text) (stop : Nat) (rest : Text) :
    NumberParts.token ⟨negative, whole, [], none, stop, rest⟩ =
      if 4300 < whole.length then .longNumber
      else .scalar (.int
        (if negative then -(Text.decimalValue whole : Int) else Text.decimalValue whole)) := rfl

/-- The form of digits alone. -/
def NumberForm.ofDigits {whole : Text} (hwhole : WholeDigits whole) : NumberForm :=
  ⟨whole, [], none, hwhole, nofun, nofun⟩

/-- The form of a whole number. -/
def NumberForm.ofNat (n : Nat) : NumberForm := .ofDigits (wholeDigits_ofNat n)

theorem digitLimit_eq : digitLimit = 10 ^ 4300 := by decide +kernel

theorem scansNumber_ofInt {n : Int} (hshort : n.natAbs < digitLimit) {rest : Text}
    (hrest : EndsNumber rest) : ScansNumber (Text.ofInt n) (.scalar (.int n)) rest := by
  have htext : Text.ofInt n =
      signText (decide (n < 0)) ++ (NumberForm.ofNat n.natAbs).text := by
    cases n with
    | ofNat n =>
        rw [decide_eq_false (by simp)]
        exact (List.append_nil _).symm
    | negSucc n =>
        rw [decide_eq_true (Int.negSucc_lt_zero n)]
        exact congrArg _ (List.append_nil _).symm
  have hlength : (Text.ofNat n.natAbs).length ≤ 4300 := by
    rw [digitLimit_eq] at hshort
    exact (Text.length_ofNat_le_iff (by decide)).mpr hshort
  refine ⟨⟨_, _, htext⟩, fun position => ?_⟩
  obtain ⟨stop, hparts⟩ :=
    number?_written position (decide (n < 0)) (NumberForm.ofNat n.natAbs) hrest
  rw [htext]
  refine ⟨_, hparts, ?_, rfl⟩
  simp only [NumberForm.ofNat, NumberForm.ofDigits]
  rw [token_of_digits, if_neg (Nat.not_lt.mpr hlength), Text.decimalValue_ofNat]
  congr 2
  by_cases hnegative : n < 0
  · rw [if_pos (decide_eq_true hnegative)]
    omega
  · rw [if_neg (by simpa using hnegative)]
    omega

/-! ## Binary numbers -/

/-- The token of a number with a fraction or an exponent. -/
theorem token_of_form (negative : Bool) (form : NumberForm) (stop : Nat) (rest : Text)
    (hform : form.isWhole = false) :
    NumberParts.token ⟨negative, form.whole, form.fraction, form.exponent, stop, rest⟩ =
      .scalar (.float (Binary64.ofDecimal negative form.decimal)) := by
  obtain ⟨whole, fraction, exponent, hwhole, hfraction, hexponent⟩ := form
  have hpoint : ¬ (fraction.isEmpty && exponent.isNone) = true := by
    rw [NumberForm.isWhole] at hform
    rw [hform]
    decide
  rw [NumberParts.token, if_neg hpoint]
  cases exponent with
  | none => rfl
  | some parts => rfl

theorem head?_ofNat {n : Nat} (hn : 0 < n) {first : CodePoint}
    (hfirst : (Text.ofNat n).head? = some first) : first.is '0' = false := by
  obtain ⟨rest, hdigits⟩ := List.head?_eq_some_iff.mp hfirst
  exact Text.head_ofNat hn hdigits

theorem wholeDigits_append {front back : Text} (hfront : WholeDigits front)
    (hzero : ∀ first, front.head? = some first → first.is '0' = false)
    (hback : AllDigits back) : WholeDigits (front ++ back) := by
  refine ⟨allDigits_append hfront.digits hback, ?_, .inr ?_⟩
  · exact fun h => hfront.ne_nil (List.append_eq_nil_iff.mp h).1
  · intro first hfirst
    cases front with
    | nil => exact absurd rfl hfront.ne_nil
    | cons head tail => exact hzero first hfirst

theorem decimalValue_append_zeros (t : Text) (count : Nat) :
    Text.decimalValue (t ++ Text.replicate count '0') = Text.decimalValue t * 10 ^ count := by
  rw [Text.decimalValue_append, Text.decimalValue_zeros, Text.replicate, List.length_replicate,
    Nat.add_zero]

theorem decimalValue_zeros_append (count : Nat) (t : Text) :
    Text.decimalValue (Text.replicate count '0' ++ t) = Text.decimalValue t := by
  rw [Text.decimalValue_append, Text.decimalValue_zeros, Nat.zero_mul, Nat.zero_add]

/-- A decimal in front of all of whose digits the point stands. -/
theorem layOut_beforeDigits (d : Decimal) (hpoint : d.point ≤ 0) :
    ∃ form : NumberForm, form.isWhole = false ∧ form.decimal = d ∧
      form.text = Text.of "0." ++ Text.replicate (-d.point).toNat '0' ++ d.digits := by
  let fraction := Text.replicate (-d.point).toNat '0' ++ d.digits
  have hfraction : fraction ≠ [] := by simp [fraction, Decimal.digits, Text.ofNat_ne_nil]
  have hempty : fraction.isEmpty = false := List.isEmpty_eq_false_iff.mpr hfraction
  refine ⟨⟨Text.of "0", fraction, none, wholeDigits_ofNat 0,
    allDigits_append (allDigits_zeros _) (allDigits_ofNat _), nofun⟩, ?_, ?_, ?_⟩
  · rw [NumberForm.isWhole, hempty]
    rfl
  · have hvalue : Text.decimalValue (Text.of "0" ++ fraction) = d.coefficient := by
      rw [show Text.of "0" = Text.replicate 1 '0' from rfl, decimalValue_zeros_append]
      exact (decimalValue_zeros_append _ _).trans (Text.decimalValue_ofNat _)
    have hlength : (fraction.length : Int) = -d.exponent := by
      simp only [fraction, Text.replicate, List.length_append, List.length_replicate]
      simp only [Decimal.point] at hpoint ⊢
      omega
    simp only [NumberForm.decimal, NumberForm.power, hvalue, hlength]
    obtain ⟨coefficient, exponent⟩ := d
    simp
  · simp only [NumberForm.text, fractionText, exponentText, hempty, List.append_nil]
    rfl

/-- A decimal behind all of whose digits the point stands. -/
theorem layOut_behindDigits (d : Decimal) (hzero : d.coefficient = 0 → d.exponent = 0)
    (hpoint : (d.digits.length : Int) ≤ d.point) :
    ∃ form : NumberForm, form.isWhole = false ∧ form.decimal.magnitude? = d.magnitude? ∧
      form.text = d.digits ++ Text.replicate (d.point.toNat - d.digits.length) '0' ++
        Text.of ".0" := by
  obtain ⟨coefficient, exponent⟩ := d
  simp only [Decimal.point, Decimal.digits] at hzero hpoint ⊢
  obtain ⟨count, rfl⟩ := Int.eq_ofNat_of_zero_le (by omega : 0 ≤ exponent)
  have hcount : ((count : Int) + ((Text.ofNat coefficient).length : Int)).toNat -
      (Text.ofNat coefficient).length = count := by omega
  rw [hcount]
  have hwhole : WholeDigits (Text.ofNat coefficient ++ Text.replicate count '0') := by
    by_cases h : coefficient = 0
    · obtain rfl : count = 0 := by
        have := hzero h
        omega
      rw [Text.replicate, List.replicate_zero, List.append_nil]
      exact wholeDigits_ofNat coefficient
    · exact wholeDigits_append (wholeDigits_ofNat coefficient)
        (fun _ => head?_ofNat (Nat.pos_of_ne_zero h)) (allDigits_zeros count)
  refine ⟨⟨_, Text.replicate 1 '0', none, hwhole, allDigits_zeros 1, nofun⟩, rfl, ?_, ?_⟩
  · simp only [NumberForm.decimal, NumberForm.power]
    rw [decimalValue_append_zeros, decimalValue_append_zeros, Text.decimalValue_ofNat,
      Nat.mul_assoc, ← Nat.pow_add, ← Decimal.magnitude?_zeros coefficient (count + 1)]
    congr 2
    simp only [Text.replicate, List.length_replicate]
    omega
  · simp only [NumberForm.text, exponentText, List.append_nil]
    rfl

/-- A decimal among whose digits the point stands. -/
theorem layOut_amidDigits (d : Decimal) (hcoefficient : 0 < d.coefficient)
    (hfront : 0 < d.point) (hback : d.point < d.digits.length) :
    ∃ form : NumberForm, form.isWhole = false ∧ form.decimal = d ∧
      form.text = d.digits.take d.point.toNat ++ Text.of "." ++ d.digits.drop d.point.toNat := by
  have hdigits : AllDigits d.digits := allDigits_ofNat d.coefficient
  have hempty : (d.digits.drop d.point.toNat).isEmpty = false := by
    rw [List.isEmpty_eq_false_iff, ne_eq, List.drop_eq_nil_iff]
    omega
  have hwhole : WholeDigits (d.digits.take d.point.toNat) := by
    refine ⟨fun point hmem => hdigits point (List.mem_of_mem_take hmem), ?_, .inr ?_⟩
    · rw [ne_eq, List.take_eq_nil_iff]
      rintro (h | h)
      · omega
      · exact Text.ofNat_ne_nil _ h
    · intro first hfirst
      rw [List.head?_take, if_neg (by omega)] at hfirst
      exact head?_ofNat hcoefficient hfirst
  have hfraction : AllDigits (d.digits.drop d.point.toNat) :=
    fun point hmem => hdigits point (List.mem_of_mem_drop hmem)
  refine ⟨⟨_, _, none, hwhole, hfraction, nofun⟩, ?_, ?_, ?_⟩
  · simp only [NumberForm.isWhole, hempty]
    rfl
  · simp only [NumberForm.decimal, NumberForm.power, List.take_append_drop, List.length_drop]
    obtain ⟨coefficient, exponent⟩ := d
    simp only [Decimal.digits, Text.decimalValue_ofNat, Decimal.point] at *
    congr 1
    omega
  · simp only [NumberForm.text, fractionText, exponentText, hempty, List.append_nil,
      List.append_assoc]
    rfl

/-- A decimal with an exponent. -/
theorem layOut_scientific (d : Decimal) (hcoefficient : 0 < d.coefficient) (zeros : Nat) :
    ∃ form : NumberForm, form.isWhole = false ∧ form.decimal = d ∧
      form.text = Binary64.mantissa d.digits ++
        Text.of (if d.point - 1 < 0 then "e-" else "e" ++ "+") ++
        Text.replicate zeros '0' ++ Text.ofNat (d.point - 1).natAbs := by
  let small := decide (d.point - 1 < 0)
  let digits := Text.replicate zeros '0' ++ Text.ofNat (d.point - 1).natAbs
  have hdigits : AllDigits d.digits := allDigits_ofNat d.coefficient
  have hvalue : Text.decimalValue d.digits = d.coefficient := Text.decimalValue_ofNat _
  have hmark : Text.of (if d.point - 1 < 0 then "e-" else "e" ++ "+") =
      [CodePoint.ofChar 'e', CodePoint.ofChar (if small then '-' else '+')] := by
    by_cases h : d.point - 1 < 0
    · simp only [small, if_pos h, decide_eq_true h]
      rfl
    · simp only [small, if_neg h, decide_eq_false h]
      rfl
  have hexponent : ∀ negative power, some (small, digits) = some (negative, power) →
      AllDigits power ∧ power ≠ [] := by
    intro negative power h
    cases h
    exact ⟨allDigits_append (allDigits_zeros _) (allDigits_ofNat _),
      by simp [digits, Text.ofNat_ne_nil]⟩
  have hpower : (if small = true then -(Text.decimalValue digits : Int)
      else (Text.decimalValue digits : Int)) = d.point - 1 := by
    simp only [small, digits, decimalValue_zeros_append, Text.decimalValue_ofNat,
      decide_eq_true_eq]
    split <;> omega
  -- the point stands behind the first digit, and the exponent counts from there
  cases hcases : d.digits with
  | nil => exact absurd hcases (Text.ofNat_ne_nil _)
  | cons first rest =>
      rw [hcases] at hdigits hvalue
      have hfirst : WholeDigits [first] :=
        ⟨fun point hmem => hdigits point (by simp_all), by simp, .inl rfl⟩
      have hrest : AllDigits rest := fun point hmem => hdigits point (List.mem_cons_of_mem _ hmem)
      refine ⟨⟨[first], rest, some (small, digits), hfirst, hrest, hexponent⟩, ?_, ?_, ?_⟩
      · simp [NumberForm.isWhole]
      · simp only [NumberForm.decimal, NumberForm.power, hpower]
        obtain ⟨coefficient, exponent⟩ := d
        simp only [Decimal.point, hcases, List.length_cons] at *
        rw [List.singleton_append, hvalue]
        congr 1
        omega
      · rw [hmark]
        cases rest with
        | nil => simp [NumberForm.text, fractionText, exponentText, Binary64.mantissa, digits]
        | cons second rest =>
            simp [NumberForm.text, fractionText, exponentText, Binary64.mantissa, digits]

/-- The usual layout writes a number that is read as the same magnitude. -/
theorem layOut_standard (d : Decimal) (hzero : d.coefficient = 0 → d.exponent = 0) :
    ∃ form : NumberForm, form.isWhole = false ∧ form.decimal.magnitude? = d.magnitude? ∧
      form.text = Binary64.layOut Binary64.standardLayout d := by
  have hpositive : ¬ (d.point = 1 ∧ d.digits.length = 1) → 0 < d.coefficient := by
    intro hpoint
    refine Nat.pos_of_ne_zero fun h => hpoint ?_
    rw [Decimal.point, Decimal.digits, hzero h, h]
    exact ⟨rfl, rfl⟩
  have hleast : Binary64.standardLayout.leastPoint = -3 := rfl
  have hgreatest : Binary64.standardLayout.greatestPoint = 16 := rfl
  simp only [Binary64.layOut]
  by_cases hnear : Binary64.standardLayout.leastPoint ≤ d.point ∧
      d.point ≤ Binary64.standardLayout.greatestPoint
  · rw [if_pos hnear]
    by_cases hbefore : d.point ≤ 0
    · rw [if_pos hbefore]
      obtain ⟨form, hwhole, hdecimal, htext⟩ := layOut_beforeDigits d hbefore
      exact ⟨form, hwhole, congrArg Decimal.magnitude? hdecimal, htext⟩
    rw [if_neg hbefore]
    by_cases hbehind : (d.digits.length : Int) ≤ d.point
    · rw [if_pos hbehind]
      exact layOut_behindDigits d hzero hbehind
    · rw [if_neg hbehind]
      obtain ⟨form, hwhole, hdecimal, htext⟩ :=
        layOut_amidDigits d (hpositive (by omega)) (by omega) (by omega)
      exact ⟨form, hwhole, congrArg Decimal.magnitude? hdecimal, htext⟩
  · rw [if_neg hnear]
    obtain ⟨form, hwhole, hdecimal, htext⟩ := layOut_scientific d (hpositive (by omega))
      (2 - (Text.ofNat (d.point - 1).natAbs).length)
    exact ⟨form, hwhole, congrArg Decimal.magnitude? hdecimal, htext⟩

theorem scansNumber_render {x : Binary64} (hfinite : x.isFinite = true) {rest : Text}
    (hrest : EndsNumber rest) : ScansNumber x.render (.scalar (.float x)) rest := by
  cases x with
  | infinite negative => exact nomatch hfinite
  | nan mark => exact nomatch hfinite
  | finite negative m =>
      have hzero : m.shortest.coefficient = 0 → m.shortest.exponent = 0 := by
        intro h
        by_cases hm : m.significand = 0
        · rw [Magnitude.shortest, if_pos hm]
        · exact absurd h (Nat.ne_of_gt (Magnitude.coefficient_shortest_pos hm))
      obtain ⟨form, hwhole, hmagnitude, htext⟩ := layOut_standard m.shortest hzero
      have hrender : Binary64.render (.finite negative m) = signText negative ++ form.text := by
        rw [htext]
        rfl
      refine ⟨⟨negative, form, hrender⟩, fun position => ?_⟩
      obtain ⟨stop, hparts⟩ := number?_written position negative form hrest
      rw [hrender]
      refine ⟨_, hparts, ?_, rfl⟩
      rw [token_of_form negative form stop rest hwhole, Binary64.ofDecimal, hmagnitude,
        Magnitude.magnitude?_shortest]
      rfl

end SealedCall.Json
