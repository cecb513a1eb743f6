import BarScript.Arith

/-!
# Rounding of results

Indicator results are rounded to a number of decimals. Unavailable and infinite values pass, and so
does a value too large to be scaled.
-/

namespace BarScript

/-- How many decimals a result keeps. -/
structure Precision where
  digits : Nat
  deriving DecidableEq, Repr

namespace Precision

/-- Ten decimals, unless a run says otherwise. -/
def standard : Precision := ⟨10⟩

/-- Rounds a value. The number of digits is a 32-bit word and read as a signed one. -/
def apply {α : Type} [Arith α] (p : Precision) (x : α) : α :=
  if !Arith.isFinite x then x
  else
    let scale : α := Arith.powerOfTen (Int.bmod p.digits (twoTo 32))
    let rounded := Arith.round (x * scale) / scale
    if Arith.isFinite rounded then rounded else x

end Precision

end BarScript
