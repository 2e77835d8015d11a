import SealedCall.Number.Binary64
import SealedCall.Text.Basic

/-! # Decimal form of binary numbers

A finite binary number is written with the fewest decimal digits that read back as the same
number, and of those the nearest. Reading rounds the exact decimal value once.
-/

namespace SealedCall

/-- The decimal number `coefficient * 10 ^ exponent`. -/
structure Decimal where
  coefficient : Nat
  exponent : Int
deriving DecidableEq

namespace Decimal

def digits (d : Decimal) : Text := Text.ofNat d.coefficient

/-- Where the decimal point stands, counted from the first digit of the coefficient. -/
def point (d : Decimal) : Int := d.exponent + d.digits.length

/-- The same number without the zeros at the end of its coefficient, as far as the fuel goes. -/
def trimmed : Nat → Decimal → Decimal
  | 0, d => d
  | fuel + 1, d =>
    if d.coefficient % 10 = 0 then trimmed fuel ⟨d.coefficient / 10, d.exponent + 1⟩ else d

/-- The nearest magnitude, unless it lies beyond the format. A number whose first digit stands more
than 400 places from the point is out of reach on either side. -/
def magnitude? (d : Decimal) : Option Magnitude :=
  if d.coefficient = 0 then some Magnitude.zero
  else if d.point > 400 then none
  else if d.point < -400 then some Magnitude.zero
  else match d.exponent with
    | .ofNat e => Magnitude.ofRatio? (d.coefficient * Nat.pow 10 e) 1
    | .negSucc e => Magnitude.ofRatio? d.coefficient (Nat.pow 10 (e + 1))

end Decimal

namespace Magnitude

/-- The place of the decimal point before the first digit of a quotient that is not zero: the
quotient is less than ten to this power and at least a tenth of it. -/
def pointOf (numerator denominator : Nat) : Int :=
  if denominator ≤ numerator then
    ((Nat.toDigits 10 (numerator / denominator)).length : Int)
  else
    let inverse := (denominator + numerator - 1) / numerator
    1 - ((Nat.toDigits 10 (inverse - 1)).length : Int)

/-- The two neighbours of a quotient on the grid of multiples of a power of ten, the nearer one
first and the even one first when they are equally near. -/
def neighbours (numerator denominator : Nat) (exponent : Int) : List Decimal :=
  let (top, bottom) := match exponent with
    | .ofNat e => (numerator, denominator * Nat.pow 10 e)
    | .negSucc e => (numerator * Nat.pow 10 (e + 1), denominator)
  let below := top / bottom
  let lower := Decimal.trimmed 20 ⟨below, exponent⟩
  let upper := Decimal.trimmed 20 ⟨below + 1, exponent⟩
  let twice := 2 * (top % bottom)
  if twice < bottom || (twice == bottom && below % 2 == 0) then [lower, upper] else [upper, lower]

/-- The factor that turns steps into multiples of `10 ^ -1074`. -/
def fives : Nat := Nat.pow 5 1074

def exactDecimal (m : Magnitude) : Decimal := ⟨m.steps * fives, -1074⟩

/-- The nearest decimal with the fewest digits that reads back as the magnitude. Seventeen digits
always suffice; the exact value stands behind them so that the answer always reads back. -/
def shortest (m : Magnitude) : Decimal :=
  if m.significand = 0 then ⟨0, 0⟩
  else
    let point := pointOf m.steps unit
    let readsBack := fun d : Decimal => decide (d.magnitude? = some m)
    match (List.range 17).findSome? fun (n : Nat) =>
        (neighbours m.steps unit (point - (n + 1 : Nat))).find? readsBack with
    | some d => d
    | none => m.exactDecimal

end Magnitude

namespace Binary64

def ofDecimal (negative : Bool) (d : Decimal) : Binary64 := ofMagnitude? negative d.magnitude?

/-- How a decimal number is laid out: with a point among or beside its digits while the point is
near them, and with an exponent otherwise, which has a least width and possibly a plus sign. Whole
numbers end in a mark of their own. -/
structure Layout where
  leastPoint : Int
  greatestPoint : Int
  wholeMark : String
  exponentPlus : String
  exponentWidth : Nat

/-- The usual layout: the point stays in place while the first digit counts ten-thousandths at
least and less than ten to the sixteenth. -/
def standardLayout : Layout := ⟨-3, 16, ".0", "+", 2⟩

/-- The usual layout of the parts of a complex number, whose whole parts have no point. -/
def partLayout : Layout := { standardLayout with wholeMark := "" }

/-- The layout of a number in the body of a response. -/
def responseLayout : Layout := ⟨-4, 16, ".0", "", 0⟩

/-- The layout with all digits in place. No number of the format has its point further away than
this layout lets it be. -/
def fullLayout : Layout := ⟨-400, 400, "", "", 0⟩

/-- Digits with a point behind the first one, when there are more. -/
def mantissa : Text → Text
  | first :: second :: rest => first :: CodePoint.ofChar '.' :: second :: rest
  | short => short

/-- The text of a decimal in a layout. -/
def layOut (form : Layout) (d : Decimal) : Text :=
  let digits := d.digits
  let point := d.point
  if form.leastPoint ≤ point ∧ point ≤ form.greatestPoint then
    if point ≤ 0 then Text.of "0." ++ Text.replicate (-point).toNat '0' ++ digits
    else if (digits.length : Int) ≤ point then
      digits ++ Text.replicate (point.toNat - digits.length) '0' ++ Text.of form.wholeMark
    else digits.take point.toNat ++ Text.of "." ++ digits.drop point.toNat
  else
    let power := point - 1
    let width := Text.ofNat power.natAbs
    mantissa digits ++ Text.of (if power < 0 then "e-" else "e" ++ form.exponentPlus) ++
      Text.replicate (form.exponentWidth - width.length) '0' ++ width

def renderIn (form : Layout) : Binary64 → Text
  | .finite negative m =>
    (if negative then [CodePoint.ofChar '-'] else []) ++ layOut form m.shortest
  | .infinite negative => Text.of (if negative then "-inf" else "inf")
  | .nan _ => Text.of "nan"

def render (x : Binary64) : Text := x.renderIn standardLayout

end Binary64

end SealedCall
