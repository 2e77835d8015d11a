import SealedCall.Text.Utf8

/-! # Random draws

A source of random octets answers one draw after the other. Which octets a draw gives is not known
here; what counts is that every draw is made once.
-/

namespace SealedCall

/-- A source that gives `octets draw length` for the draw with a number, and the number of draws
made so far. -/
structure RandomSource where
  octets : (draw length : Nat) → Octets
  drawn : Nat

/-- The octets of the next draw, and the source after it. -/
def RandomSource.draw (source : RandomSource) (length : Nat) : Octets × RandomSource :=
  (source.octets source.drawn length, ⟨source.octets, source.drawn + 1⟩)

end SealedCall
