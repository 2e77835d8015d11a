/-! # Binary floating-point numbers

The numbers of the 64-bit binary format, held exactly: a finite number is a sign and a whole
multiple of a power of two. Every result that is not itself such a number is rounded to the
nearest one, and a tie goes to the even significand.
-/

namespace SealedCall

/-- An absolute value of the format: `significand * 2 ^ scale` steps of `2 ^ -1074`. Only the
smallest scale may have a significand of fewer than 53 bits, so every value has one form. -/
structure Magnitude where
  significand : Nat
  scale : Nat
  canonical : significand < 9007199254740992 ∧ scale ≤ 2045 ∧
    (4503599627370496 ≤ significand ∨ scale = 0)
deriving DecidableEq

/-- A number of the 64-bit binary format. Results that are no number are written alike and tell
apart only by a mark; what is computed or read carries the mark zero until it is given another. -/
inductive Binary64
  | finite (negative : Bool) (magnitude : Magnitude)
  | infinite (negative : Bool)
  | nan (mark : Nat)
deriving DecidableEq

/-- The whole number nearest to a quotient, the even one of two that are equally near. -/
def roundHalfEven (numerator denominator : Nat) : Nat :=
  let quotient := numerator / denominator
  let twice := 2 * (numerator % denominator)
  if twice < denominator then quotient
  else if denominator < twice then quotient + 1
  else quotient + quotient % 2

namespace Magnitude

/-- The number of steps in one. -/
def unit : Nat := Nat.pow 2 1074

/-- The magnitude with the given parts, when they are in canonical form. -/
def ofParts? (significand scale : Nat) : Option Magnitude :=
  if h : significand < 9007199254740992 ∧ scale ≤ 2045 ∧
      (4503599627370496 ≤ significand ∨ scale = 0) then
    some ⟨significand, scale, h⟩
  else none

def zero : Magnitude := ⟨0, 0, by decide⟩

/-- How many steps of `2 ^ -1074` the magnitude has. -/
def steps (m : Magnitude) : Nat := m.significand * Nat.pow 2 m.scale

/-- The magnitude nearest to a number of steps given as a quotient, unless it lies beyond the
format. -/
def ofSteps? (numerator denominator : Nat) : Option Magnitude :=
  let scale := (numerator / denominator).log2 - 52
  let significand := roundHalfEven numerator (denominator * Nat.pow 2 scale)
  if significand < 9007199254740992 then ofParts? significand scale
  else ofParts? 4503599627370496 (scale + 1)

/-- The magnitude nearest to a quotient, unless it lies beyond the format. -/
def ofRatio? (numerator denominator : Nat) : Option Magnitude :=
  ofSteps? (numerator * unit) denominator

end Magnitude

namespace Binary64

/-- The number nearest to a signed magnitude; beyond the format it is infinite. -/
def ofMagnitude? (negative : Bool) : Option Magnitude → Binary64
  | some m => .finite negative m
  | none => .infinite negative

def signedSteps (negative : Bool) (m : Magnitude) : Int :=
  if negative then -(m.steps : Int) else (m.steps : Int)

/-- The finite number nearest to a whole number, unless it lies beyond the format. -/
def ofInt? (n : Int) : Option Binary64 :=
  (Magnitude.ofRatio? n.natAbs 1).map (.finite (decide (n < 0)))

def isFinite : Binary64 → Bool
  | .finite _ _ => true
  | _ => false

/-- Whether the number is zero, of either sign. -/
def isZero : Binary64 → Bool
  | .finite _ m => m.significand == 0
  | _ => false

/-- Whether two numbers are equal: the two zeros are, and what is no number equals only itself. -/
def equal : Binary64 → Binary64 → Bool
  | .finite s m, .finite t n => signedSteps s m == signedSteps t n
  | .infinite s, .infinite t => s == t
  | .nan j, .nan k => j == k
  | _, _ => false

/-- Whether the number is exactly the given whole number. -/
def equalInt : Binary64 → Int → Bool
  | .finite s m, n => signedSteps s m == n * (Magnitude.unit : Int)
  | _, _ => false

/-- The rounded sum. Only two negative zeros add up to a negative zero. -/
def add : Binary64 → Binary64 → Binary64
  | .nan _, _ | _, .nan _ => .nan 0
  | .infinite s, .infinite t => if s == t then .infinite s else .nan 0
  | .infinite s, .finite _ _ => .infinite s
  | .finite _ _, .infinite t => .infinite t
  | .finite s m, .finite t n =>
    let total := signedSteps s m + signedSteps t n
    let negative := if total = 0 then s && t else decide (total < 0)
    ofMagnitude? negative (Magnitude.ofSteps? total.natAbs 1)

def abs : Binary64 → Binary64
  | .finite _ m => .finite false m
  | .infinite _ => .infinite false
  | .nan _ => .nan 0

/-- The number with another mark, where it is none. -/
def marked (mark : Nat) : Binary64 → Binary64
  | .nan _ => .nan mark
  | number => number

end Binary64

end SealedCall
