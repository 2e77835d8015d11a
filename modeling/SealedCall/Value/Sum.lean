import SealedCall.Failure
import SealedCall.Value.Equality

/-! # Sums of numbers

Truth values and whole numbers add up exactly. As soon as a binary number takes part, the sum is
the rounded sum of binary numbers, and a whole number that is too large for them has none. The same
holds of the real parts when a complex number takes part.
-/

namespace SealedCall.Value

/-- The binary number that a number counts as in a sum with another one. -/
def binary? : Value → Except Misuse (Option Binary64)
  | .float x => .ok (some x)
  | other =>
    match other.wholeNumber? with
    | some n =>
      match Binary64.ofInt? n with
      | some x => .ok (some x)
      | none => .error .tooLargeForFloat
    | none => .ok none

/-- The complex number that a number counts as in a sum with a complex one. -/
def complex? : Value → Except Misuse (Option ComplexNumber)
  | .foreign (.complex z) => .ok (some z)
  | other =>
    match other.binary? with
    | .ok (some x) => .ok (some (.ofReal x))
    | .ok none => .ok none
    | .error misuse => .error misuse

def isComplex : Value → Bool
  | .foreign (.complex _) => true
  | _ => false

/-- Whether the value takes part in sums of numbers. -/
def isNumber : Value → Bool
  | .float _ => true
  | other => other.wholeNumber?.isSome || other.isComplex

/-- The sum of two numbers, written by the given operator. -/
def plus (operator : String) (a b : Value) : Except Misuse Value :=
  match a.wholeNumber?, b.wholeNumber? with
  | some m, some n => .ok (.int (m + n))
  | _, _ =>
    let misused := Misuse.unsupported operator a.typeName b.typeName
    if !(a.isNumber && b.isNumber) then .error misused
    else if a.isComplex || b.isComplex then do
      match ← a.complex?, ← b.complex? with
      | some z, some w => .ok (.foreign (.complex (z.add w)))
      | _, _ => .error misused
    else do
      match ← a.binary?, ← b.binary? with
      | some x, some y => .ok (.float (x.add y))
      | _, _ => .error misused

/-- The sum of several numbers, after a number to start from. -/
def total (start : Value) : List Value → Except Misuse Value
  | [] => .ok start
  | value :: rest =>
    match plus "+" start value with
    | .ok sum => total sum rest
    | .error misuse => .error misuse

end SealedCall.Value
