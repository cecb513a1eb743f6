import BarScript.Arith.Powers

/-!
# Whole roots of counts

Some windows are as long as the square root of another length. The root is taken in double
precision and its fraction cut off: `wholeRoot` is that number, computed on integers. It is the
true integer root unless the count is so large that its root rounds up to the next integer.
-/

namespace BarScript

/-- The integer square root. -/
def integerRoot (n : Nat) : Nat :=
  if n < 2 then n
  else
    let r := 2 * integerRoot (n / 4)
    if (r + 1) * (r + 1) ≤ n then r + 1 else r
termination_by n

/-- The nearest number with at most 53 significant bits; a tie goes to the even one. -/
def toDoubleBits (n : Nat) : Nat :=
  let drop := n.log2 - 52
  let unit := twoTo drop
  let (q, r) := (n / unit, n % unit)
  let q := if 2 * r > unit ∨ (2 * r = unit ∧ q % 2 = 1) then q + 1 else q
  q * unit

/-- The integer part of the square root in double precision. -/
def wholeRoot (n : Nat) : Nat :=
  let n := toDoubleBits n
  let r := integerRoot n
  -- half of the last bit that a root between `r` and `r + 1` has is `1 / scale`
  let scale := twoTo (53 - r.log2)
  let bound := scale * (r + 1) - 1
  if bound * bound ≤ n * (scale * scale) then r + 1 else r

end BarScript
