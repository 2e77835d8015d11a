import SealedCall.Number.Decimal

/-! # Complex numbers

Complex numbers with binary parts. They are added part by part, and their absolute value is the
binary number nearest to the exact root. There are two texts of them: one for messages, and one for
responses, which leaves out a real part of zero whatever its sign.
-/

namespace SealedCall

/-- A complex number by its two parts. -/
structure ComplexNumber where
  real : Binary64
  imaginary : Binary64
deriving DecidableEq

/-- The whole part of a square root, found from its highest binary digit down. -/
def floorRoot (n : Nat) : Nat :=
  (List.range (n.log2 / 2 + 1)).foldr (fun place root =>
    let larger := root + Nat.pow 2 place
    if larger * larger ≤ n then larger else root) 0

namespace ComplexNumber

def unit : ComplexNumber := ⟨.ofDecimal false ⟨0, 0⟩, .ofDecimal false ⟨1, 0⟩⟩

def ofReal (real : Binary64) : ComplexNumber := ⟨real, .ofDecimal false ⟨0, 0⟩⟩

/-- The sum, part by part. -/
def add (z w : ComplexNumber) : ComplexNumber :=
  ⟨z.real.add w.real, z.imaginary.add w.imaginary⟩

def isZero (z : ComplexNumber) : Bool := z.real.isZero && z.imaginary.isZero

def equal (z w : ComplexNumber) : Bool := z.real.equal w.real && z.imaginary.equal w.imaginary

/-- The binary number nearest to the root of a sum of two squares of steps. Four times the root
tells on which side of a halfway point the exact root lies, once a remainder is marked by an odd
last digit. -/
def rootOfSquares (m n : Magnitude) : Binary64 :=
  let squares := 16 * (m.steps * m.steps + n.steps * n.steps)
  let root := floorRoot squares
  let doubled := if root * root = squares then 2 * root else 2 * root + 1
  .ofMagnitude? false (Magnitude.ofSteps? doubled 8)

/-- The absolute value. An infinite part outweighs one that is no number. -/
def abs (z : ComplexNumber) : Binary64 :=
  match z.real, z.imaginary with
  | .infinite _, _ | _, .infinite _ => .infinite false
  | .nan _, _ | _, .nan _ => .nan 0
  | .finite _ m, .finite _ n => rootOfSquares m n

/-- The number with another mark on the parts that are no numbers. -/
def marked (mark : Nat) (z : ComplexNumber) : ComplexNumber :=
  ⟨z.real.marked mark, z.imaginary.marked mark⟩

/-- The sign that joins a part to the one before it, when its own text does not start with one. -/
def joint : Binary64 → Text
  | .finite true _ | .infinite true => []
  | _ => Text.of "+"

/-- The text in a message: the imaginary part alone where the real part is a positive zero. -/
def shown (z : ComplexNumber) : Text :=
  let imaginary := z.imaginary.renderIn Binary64.partLayout ++ Text.of "j"
  if z.real = .finite false Magnitude.zero then imaginary
  else
    Text.of "(" ++ z.real.renderIn Binary64.partLayout ++ joint z.imaginary ++ imaginary ++
      Text.of ")"

def writtenPart : Binary64 → Text
  | .nan _ => Text.of "NaN"
  | part => part.renderIn Binary64.fullLayout

def written (z : ComplexNumber) : Text :=
  let imaginary := writtenPart z.imaginary ++ Text.of "j"
  if z.real.isZero then imaginary
  else
    writtenPart z.real ++ (match z.imaginary with | .nan _ => [] | part => joint part) ++ imaginary

end ComplexNumber

end SealedCall
