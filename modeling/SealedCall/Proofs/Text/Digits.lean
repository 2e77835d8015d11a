import Mathlib.Algebra.Group.Nat.Defs
import SealedCall.Text.Basic

/-! # Decimal and hexadecimal digits

A natural number is written in decimal digits of which the first is a zero only for the number zero,
and its digits read back as the number. A sixteen-bit number has four hexadecimal digits.
-/

namespace SealedCall

namespace CodePoint

theorem eq_of_value {a b : CodePoint} (h : a.value = b.value) : a = b := by
  cases a
  cases b
  simp only at h
  subst h
  rfl

theorem is_iff {point : CodePoint} {c : Char} : point.is c = true ↔ point.value = c.toNat := by
  rw [CodePoint.is, beq_iff_eq]

theorem is_eq_false_iff {point : CodePoint} {c : Char} :
    point.is c = false ↔ point.value ≠ c.toNat := by
  rw [← Bool.not_eq_true, is_iff]

theorem eq_ofChar_of_is {point : CodePoint} {c : Char} (his : point.is c = true) :
    point = ofChar c := eq_of_value (is_iff.mp his)

theorem within_iff {point : CodePoint} {low high : Nat} :
    point.within low high = true ↔ low ≤ point.value ∧ point.value ≤ high := by
  rw [within, Bool.and_eq_true, decide_eq_true_eq, decide_eq_true_eq]

theorem within_eq_false_iff {point : CodePoint} {low high : Nat} :
    point.within low high = false ↔ point.value < low ∨ high < point.value := by
  rw [← Bool.not_eq_true, within_iff]
  omega

theorem isDigit_ofChar {c : Char} (hdigit : c.isDigit = true) : (ofChar c).isDigit = true := by
  simp only [Char.isDigit, Bool.and_eq_true, decide_eq_true_eq, ge_iff_le,
    UInt32.le_iff_toNat_le] at hdigit
  exact within_iff.mpr hdigit

/-- A digit is none of the characters outside the decimal ones. -/
theorem is_eq_false_of_isDigit {point : CodePoint} {c : Char} (hdigit : point.isDigit = true)
    (hc : c.toNat < 0x30 ∨ 0x39 < c.toNat) : point.is c = false := by
  have hvalue := within_iff.mp hdigit
  rw [is_eq_false_iff]
  omega

/-- The digit of a number below sixteen has that number as its value. -/
theorem hexValue?_digitChar {n : Nat} (hn : n < 16) :
    (ofChar (Nat.digitChar n)).hexValue? = some n := by
  revert n
  decide

end CodePoint

namespace Text

/-! ## Decimal digits -/

theorem ofNat_ne_nil (n : Nat) : ofNat n ≠ [] := by
  intro h
  have hlength := congrArg List.length h
  simp only [ofNat, List.length_map, List.length_nil] at hlength
  have hpos : 0 < (Nat.toDigits 10 n).length := Nat.length_toDigits_pos
  omega

theorem isDigit_of_mem_ofNat {n : Nat} {point : CodePoint} (hmem : point ∈ ofNat n) :
    point.isDigit = true := by
  obtain ⟨c, hc, rfl⟩ := List.mem_map.mp hmem
  exact CodePoint.isDigit_ofChar (Nat.isDigit_of_mem_toDigits (by decide) (by decide) hc)

/-- The number of digits is bounded by the exponent of a power of ten above the number. -/
theorem length_ofNat_le_iff {n k : Nat} (hk : 0 < k) : (ofNat n).length ≤ k ↔ n < 10 ^ k := by
  rw [ofNat, List.length_map]
  exact Nat.length_toDigits_le_iff (by decide) hk

theorem ofNat_of_lt {n : Nat} (hn : n < 10) : ofNat n = [CodePoint.ofChar (Nat.digitChar n)] := by
  rw [ofNat, Nat.toDigits_of_lt_base hn]
  rfl

theorem ofNat_of_le {n : Nat} (hn : 10 ≤ n) :
    ofNat n = ofNat (n / 10) ++ [CodePoint.ofChar (Nat.digitChar (n % 10))] := by
  rw [ofNat, Nat.toDigits_eq_if (by decide), if_neg (by omega), List.map_append]
  rfl

/-- The first digit of a number is a zero only where the number is. -/
theorem head_ofNat {n : Nat} (hn : 0 < n) {first : CodePoint} {rest : Text}
    (hdigits : ofNat n = first :: rest) : first.is '0' = false := by
  induction n using Nat.strongRecOn generalizing first rest with
  | ind n ih =>
      by_cases hsmall : n < 10
      · have hvalue : ∀ k : Fin 10, 0 < k.val →
            (CodePoint.ofChar (Nat.digitChar k.val)).is '0' = false := by decide
        rw [ofNat_of_lt hsmall, List.cons.injEq] at hdigits
        rw [← hdigits.1]
        exact hvalue ⟨n, hsmall⟩ hn
      · rw [ofNat_of_le (by omega)] at hdigits
        cases hfront : ofNat (n / 10) with
        | nil => exact absurd hfront (ofNat_ne_nil _)
        | cons head tail =>
            rw [hfront, List.cons_append, List.cons.injEq] at hdigits
            rw [← hdigits.1]
            exact ih (n / 10) (by omega) (by omega) hfront

/-! ## The number that digits write -/

theorem decimalValue_append (front back : Text) :
    decimalValue (front ++ back) =
      decimalValue front * 10 ^ back.length + decimalValue back := by
  have hshift : ∀ (t : Text) (start : Nat),
      t.foldl (fun total digit => total * 10 + digit.digitValue) start =
        start * 10 ^ t.length + decimalValue t := by
    intro t
    induction t with
    | nil => simp [decimalValue]
    | cons digit rest ih =>
        intro start
        rw [decimalValue, List.foldl_cons, List.foldl_cons, ih, ih, List.length_cons, Nat.pow_succ,
          Nat.add_mul, Nat.add_mul, Nat.mul_assoc, Nat.mul_comm 10 (10 ^ rest.length)]
        omega
  rw [decimalValue, List.foldl_append, hshift]
  rfl

theorem decimalValue_lt {digits : Text} (hdigits : ∀ point ∈ digits, point.isDigit = true) :
    decimalValue digits < 10 ^ digits.length := by
  induction digits with
  | nil => decide
  | cons first rest ih =>
      obtain ⟨hfirst, hrest⟩ := List.forall_mem_cons.mp hdigits
      have hvalue := CodePoint.within_iff.mp hfirst
      have hdigit : decimalValue [first] = 0 * 10 + (first.value - 0x30) := rfl
      have hbound : decimalValue [first] ≤ 9 := by omega
      calc
        decimalValue (first :: rest)
            = decimalValue [first] * 10 ^ rest.length + decimalValue rest :=
              decimalValue_append [first] rest
        _ < decimalValue [first] * 10 ^ rest.length + 10 ^ rest.length :=
              Nat.add_lt_add_left (ih hrest) _
        _ = (decimalValue [first] + 1) * 10 ^ rest.length := (Nat.succ_mul _ _).symm
        _ ≤ 10 * 10 ^ rest.length := Nat.mul_le_mul_right _ (by omega)
        _ = 10 ^ (first :: rest).length := (Nat.pow_succ' ).symm

/-- A number is not written with more digits than it was read from. -/
theorem length_ofNat_decimalValue_le {digits : Text}
    (hdigits : ∀ point ∈ digits, point.isDigit = true) (hne : digits ≠ []) :
    (ofNat (decimalValue digits)).length ≤ digits.length :=
  (length_ofNat_le_iff (List.length_pos_iff.mpr hne)).mpr (decimalValue_lt hdigits)

theorem decimalValue_zeros (count : Nat) : decimalValue (replicate count '0') = 0 := by
  induction count with
  | zero => rfl
  | succ count ih => exact ih

theorem decimalValue_ofNat (n : Nat) : decimalValue (ofNat n) = n := by
  have hdigit : ∀ k : Fin 10,
      decimalValue [CodePoint.ofChar (Nat.digitChar k.val)] = k.val := by decide
  induction n using Nat.strongRecOn with
  | ind n ih =>
      by_cases hsmall : n < 10
      · rw [ofNat_of_lt hsmall]
        exact hdigit ⟨n, hsmall⟩
      · rw [ofNat_of_le (by omega), decimalValue_append, ih (n / 10) (by omega),
          hdigit ⟨n % 10, Nat.mod_lt n (by decide)⟩]
        simp only [List.length_cons, List.length_nil]
        omega

/-! ## Four hexadecimal digits -/

/-- The hexadecimal digit of a number below sixteen. -/
def hexCharacter (n : Nat) : CodePoint := CodePoint.ofChar (Nat.digitChar n)

/-- A sixteen-bit number fills four digits, from the most significant one on. -/
theorem ofHex_four {n : Nat} (hn : n < 0x10000) :
    ofHex 4 n = [hexCharacter (n / 0x1000), hexCharacter (n / 0x100 % 0x10),
      hexCharacter (n / 0x10 % 0x10), hexCharacter (n % 0x10)] := by
  have hstep : ∀ m, 16 ≤ m → Nat.toDigits 16 m = Nat.toDigits 16 (m / 16) ++ [(m % 16).digitChar] :=
    fun m hm => by rw [Nat.toDigits_eq_if (by decide), if_neg (by omega)]
  have hlast : ∀ m, m < 16 → Nat.toDigits 16 m = [m.digitChar] :=
    fun m hm => Nat.toDigits_of_lt_base hm
  simp only [ofHex, replicate]
  -- one case for each number of digits that are no filling zeros
  by_cases h₁ : n < 0x10
  · rw [hlast n h₁, Nat.div_eq_of_lt (by omega : n < 0x1000),
      Nat.div_eq_of_lt (by omega : n < 0x100), Nat.div_eq_of_lt h₁, Nat.mod_eq_of_lt h₁]
    rfl
  by_cases h₂ : n < 0x100
  · rw [hstep n (by omega), hlast (n / 16) (by omega), Nat.div_eq_of_lt (by omega : n < 0x1000),
      Nat.div_eq_of_lt h₂, Nat.mod_eq_of_lt (by omega : n / 0x10 < 0x10)]
    rfl
  by_cases h₃ : n < 0x1000
  · rw [hstep n (by omega), hstep (n / 16) (by omega), hlast (n / 16 / 16) (by omega),
      Nat.div_div_eq_div_mul, Nat.div_eq_of_lt h₃, Nat.mod_eq_of_lt (by omega : n / 0x100 < 0x10)]
    rfl
  · rw [hstep n (by omega), hstep (n / 16) (by omega), hstep (n / 16 / 16) (by omega),
      hlast (n / 16 / 16 / 16) (by omega)]
    simp only [Nat.div_div_eq_div_mul]
    rfl

end Text

end SealedCall
