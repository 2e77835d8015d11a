import SealedCall.Number.Decimal
import SealedCall.Proofs.Text.Digits

/-! # Decimal forms that read back

Reading a decimal rounds its value to the nearest magnitude, so it depends on that value alone and
not on how many zeros the coefficient ends in. A magnitude is the nearest one to itself, and the
decimal that is chosen for it reads back as the magnitude it was chosen for.
-/

namespace SealedCall

theorem roundHalfEven_mul (n : Nat) {denominator : Nat} (hdenominator : 0 < denominator) :
    roundHalfEven (n * denominator) denominator = n := by
  simp only [roundHalfEven, Nat.mul_mod_left, Nat.mul_zero]
  rw [if_pos hdenominator, Nat.mul_div_cancel n hdenominator]

/-- Rounding a quotient does not depend on a factor that both sides have. -/
theorem roundHalfEven_mul_mul (numerator denominator : Nat) {factor : Nat} (hfactor : 0 < factor) :
    roundHalfEven (numerator * factor) (denominator * factor) =
      roundHalfEven numerator denominator := by
  simp only [roundHalfEven, Nat.mul_div_mul_right _ _ hfactor, Nat.mul_mod_mul_right]
  rw [← Nat.mul_assoc]
  simp only [Nat.mul_lt_mul_right hfactor]

namespace Magnitude

theorem ofParts?_eq (m : Magnitude) : ofParts? m.significand m.scale = some m :=
  dif_pos m.canonical

/-- The scale can be told from the number of steps. -/
theorem log2_steps (m : Magnitude) : m.steps.log2 - 52 = m.scale := by
  obtain ⟨hbound, _, hfull⟩ := m.canonical
  by_cases hnormal : 4503599627370496 ≤ m.significand
  · have hlog : m.steps.log2 = 52 + m.scale := by
      have hpow : 0 < 2 ^ m.scale := Nat.two_pow_pos m.scale
      have hsteps : m.steps = m.significand * 2 ^ m.scale := rfl
      rw [Nat.log2_eq_iff (by rw [hsteps]; exact Nat.mul_ne_zero (by omega) (by omega)), hsteps,
        Nat.pow_add, show 52 + m.scale + 1 = 53 + m.scale by omega, Nat.pow_add]
      exact ⟨Nat.mul_le_mul_right _ (by omega), Nat.mul_lt_mul_of_pos_right (by omega) hpow⟩
    omega
  · have hscale : m.scale = 0 := hfull.resolve_left hnormal
    have hsteps : m.steps = m.significand := by
      rw [steps, hscale]
      exact Nat.mul_one _
    rw [hsteps, hscale]
    by_cases hzero : m.significand = 0
    · rw [hzero]
      rfl
    · have hlog : m.significand.log2 < 52 := (Nat.log2_lt hzero).mpr (by omega)
      omega

/-- A magnitude is the nearest one to itself, as whatever quotient it is given. -/
theorem ofSteps?_steps (m : Magnitude) {denominator : Nat} (hdenominator : 0 < denominator) :
    ofSteps? (m.steps * denominator) denominator = some m := by
  have hparts : m.steps * denominator =
      m.significand * (denominator * Nat.pow 2 m.scale) := by
    rw [steps, Nat.mul_assoc, Nat.mul_comm (Nat.pow 2 m.scale)]
  have hround : roundHalfEven (m.steps * denominator) (denominator * Nat.pow 2 m.scale) =
      m.significand := by
    rw [hparts]
    exact roundHalfEven_mul _ (Nat.mul_pos hdenominator (Nat.two_pow_pos m.scale))
  simp only [ofSteps?, Nat.mul_div_cancel _ hdenominator, log2_steps, hround]
  rw [if_pos m.canonical.1, ofParts?_eq]

theorem ofSteps?_mul_mul (numerator denominator : Nat) {factor : Nat} (hfactor : 0 < factor) :
    ofSteps? (numerator * factor) (denominator * factor) = ofSteps? numerator denominator := by
  simp only [ofSteps?, Nat.mul_div_mul_right _ _ hfactor]
  rw [Nat.mul_assoc, Nat.mul_comm factor, ← Nat.mul_assoc, roundHalfEven_mul_mul _ _ hfactor]

theorem ofRatio?_mul_mul (numerator denominator : Nat) {factor : Nat} (hfactor : 0 < factor) :
    ofRatio? (numerator * factor) (denominator * factor) = ofRatio? numerator denominator := by
  rw [ofRatio?, Nat.mul_assoc, Nat.mul_comm factor, ← Nat.mul_assoc,
    ofSteps?_mul_mul _ _ hfactor]
  rfl

/-- No magnitude has as many steps as a power of two beyond the last scale. -/
theorem steps_lt (m : Magnitude) {k : Nat} (hk : 2098 ≤ k) : m.steps < 2 ^ k := by
  obtain ⟨hbound, hscale, _⟩ := m.canonical
  calc m.steps < 2 ^ 53 * 2 ^ m.scale :=
        Nat.mul_lt_mul_of_pos_right (by omega) (Nat.two_pow_pos m.scale)
    _ = 2 ^ (53 + m.scale) := (Nat.pow_add 2 53 m.scale).symm
    _ ≤ 2 ^ k := Nat.pow_le_pow_right (by decide) (by omega)

theorem steps_pos {m : Magnitude} (hm : m.significand ≠ 0) : 0 < m.steps :=
  Nat.mul_pos (Nat.pos_of_ne_zero hm) (Nat.two_pow_pos m.scale)

theorem eq_zero {m : Magnitude} (hm : m.significand = 0) : m = zero := by
  obtain ⟨significand, scale, hcanonical⟩ := m
  obtain rfl : significand = 0 := hm
  obtain rfl : scale = 0 := hcanonical.2.2.resolve_left (by decide)
  rfl

end Magnitude

namespace Decimal

/-- Within reach of the format the value of a decimal is all that reading looks at: a quotient by
any power of ten that makes its exponent whole. -/
theorem magnitude?_eq_ofRatio? (d : Decimal) (hcoefficient : 0 < d.coefficient)
    (hlow : -400 ≤ d.point) (hhigh : d.point ≤ 400) (shift : Nat) (n : Nat)
    (hn : (n : Int) = d.exponent + shift) :
    d.magnitude? = Magnitude.ofRatio? (d.coefficient * 10 ^ n) (10 ^ shift) := by
  have hten : ∀ k, 0 < 10 ^ k := fun k => Nat.pow_pos (by decide)
  rw [magnitude?, if_neg (by omega), if_neg (by omega), if_neg (by omega)]
  obtain ⟨coefficient, exponent⟩ := d
  cases exponent with
  | ofNat e =>
      obtain rfl : n = e + shift := by
        simp only [Int.ofNat_eq_natCast] at hn
        omega
      rw [Nat.pow_add, ← Nat.mul_assoc]
      conv => rhs; arg 2; rw [← Nat.one_mul (10 ^ shift)]
      exact (Magnitude.ofRatio?_mul_mul _ _ (hten shift)).symm
  | negSucc e =>
      obtain rfl : shift = e + 1 + n := by
        simp only [Int.negSucc_eq] at hn
        omega
      rw [Nat.pow_add]
      exact (Magnitude.ofRatio?_mul_mul _ _ (hten n)).symm

/-- A coefficient with zeros behind it has as many digits more. -/
theorem length_ofNat_mul_pow {n : Nat} (hn : 0 < n) (count : Nat) :
    (Text.ofNat (n * 10 ^ count)).length = (Text.ofNat n).length + count := by
  induction count with
  | zero => simp
  | succ count ih =>
      have hpos : 0 < 10 ^ count := Nat.pow_pos (by decide)
      have hlarge : 10 ≤ n * 10 ^ (count + 1) := by
        rw [Nat.pow_succ, ← Nat.mul_assoc]
        exact Nat.le_mul_of_pos_left 10 (Nat.mul_pos hn hpos)
      rw [Text.ofNat_of_le hlarge, Nat.pow_succ, ← Nat.mul_assoc, Nat.mul_div_cancel _ (by decide),
        List.length_append, ih]
      rfl

/-- Zeros at the end of the coefficient do not change what is read. -/
theorem magnitude?_zeros (coefficient count : Nat) (exponent : Int) :
    magnitude? ⟨coefficient * 10 ^ count, exponent - count⟩ =
      magnitude? ⟨coefficient, exponent⟩ := by
  have hpos : 0 < 10 ^ count := Nat.pow_pos (by decide)
  by_cases hzero : coefficient = 0
  · subst hzero
    simp [magnitude?]
  have hcoefficient : 0 < coefficient := Nat.pos_of_ne_zero hzero
  have hpoint : point ⟨coefficient * 10 ^ count, exponent - count⟩ =
      point ⟨coefficient, exponent⟩ := by
    simp only [point, digits, length_ofNat_mul_pow hcoefficient]
    omega
  -- beyond these points a decimal is settled by its point alone
  by_cases hhigh : point ⟨coefficient, exponent⟩ ≤ 400
  · by_cases hlow : -400 ≤ point ⟨coefficient, exponent⟩
    · obtain ⟨shift, hshift⟩ : ∃ shift : Nat, 0 ≤ exponent - count + shift :=
        ⟨(exponent - count).natAbs, by omega⟩
      obtain ⟨n, hn⟩ := Int.eq_ofNat_of_zero_le hshift
      rw [magnitude?_eq_ofRatio? ⟨coefficient, exponent⟩ hcoefficient hlow hhigh shift (n + count)
          (by simp only [Int.natCast_add]; omega),
        magnitude?_eq_ofRatio? ⟨coefficient * 10 ^ count, exponent - count⟩
          (Nat.mul_pos hcoefficient hpos) (by omega) (by omega) shift n (by simp only; omega),
        Nat.mul_assoc, ← Nat.pow_add, Nat.add_comm count n]
    · simp only [magnitude?, hpoint]
      rw [if_neg (Nat.mul_ne_zero hzero (by omega)), if_neg (by omega), if_pos (by omega),
        if_neg hzero, if_neg (by omega), if_pos (by omega)]
  · simp only [magnitude?, hpoint]
    rw [if_neg (Nat.mul_ne_zero hzero (by omega)), if_pos (by omega), if_neg hzero,
      if_pos (by omega)]

end Decimal

namespace Magnitude

theorem fives_pos : 0 < fives := by decide +kernel

theorem unit_pos : 0 < unit := by decide +kernel

/-- The exact decimal value lies within reach of the format. -/
theorem point_exactDecimal {m : Magnitude} (hm : m.significand ≠ 0) :
    -400 ≤ m.exactDecimal.point ∧ m.exactDecimal.point ≤ 400 := by
  have hlower : 10 ^ 674 ≤ m.steps * fives :=
    calc 10 ^ 674 ≤ 1 * fives := by decide +kernel
      _ ≤ m.steps * fives := Nat.mul_le_mul_right _ (steps_pos hm)
  obtain ⟨k, hk, hbound⟩ : ∃ k, 2098 ≤ k ∧ 2 ^ k * fives < 10 ^ 1474 :=
    ⟨2098, Nat.le_refl _, by decide +kernel⟩
  have hupper : m.steps * fives < 10 ^ 1474 :=
    calc m.steps * fives < 2 ^ k * fives :=
          Nat.mul_lt_mul_of_pos_right (steps_lt m hk) fives_pos
      _ < 10 ^ 1474 := hbound
  have hlong : ¬ m.exactDecimal.digits.length ≤ 674 := by
    rw [Decimal.digits, exactDecimal, Text.length_ofNat_le_iff (by decide)]
    exact Nat.not_lt.mpr hlower
  have hshort : m.exactDecimal.digits.length ≤ 1474 :=
    (Text.length_ofNat_le_iff (by decide)).mpr hupper
  have hpoint : m.exactDecimal.point = -1074 + (m.exactDecimal.digits.length : Int) := rfl
  omega

theorem magnitude?_exactDecimal {m : Magnitude} (hm : m.significand ≠ 0) :
    m.exactDecimal.magnitude? = some m := by
  obtain ⟨hlow, hhigh⟩ := point_exactDecimal hm
  have hcoefficient : m.exactDecimal.coefficient = m.steps * fives := rfl
  have hten : fives * unit = 10 ^ 1074 := by decide +kernel
  have hpos : 0 < m.exactDecimal.coefficient := Nat.mul_pos (steps_pos hm) fives_pos
  rw [Decimal.magnitude?_eq_ofRatio? m.exactDecimal hpos hlow hhigh 1074 0 rfl, ofRatio?,
    hcoefficient, Nat.pow_zero, Nat.mul_one, Nat.mul_assoc, ← hten]
  exact ofSteps?_steps m (Nat.mul_pos fives_pos unit_pos)

/-- The decimal chosen for a magnitude reads back as that magnitude. -/
theorem magnitude?_shortest (m : Magnitude) : m.shortest.magnitude? = some m := by
  by_cases hm : m.significand = 0
  · rw [shortest, if_pos hm, eq_zero hm]
    rfl
  rw [shortest, if_neg hm]
  simp only
  split
  next d hfound =>
    obtain ⟨_, _, hfound⟩ := List.exists_of_findSome?_eq_some hfound
    have hread := List.find?_some hfound
    simp only [decide_eq_true_eq] at hread
    exact hread
  next => exact magnitude?_exactDecimal hm

theorem coefficient_shortest_pos {m : Magnitude} (hm : m.significand ≠ 0) :
    0 < m.shortest.coefficient := by
  refine Nat.pos_of_ne_zero fun hzero => hm ?_
  have hread := magnitude?_shortest m
  rw [Decimal.magnitude?, if_pos hzero, Option.some.injEq] at hread
  rw [← hread]
  rfl

end Magnitude

end SealedCall
