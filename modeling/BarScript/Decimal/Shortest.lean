import BarScript.Decimal.Binary

/-!
# The fewest digits that read back

A positive float stands for all reals that round to it: an interval whose ends are half way to its
neighbours. `Decimal.shortest` gives the decimal with the fewest digits in that interval; of two
with equally many digits the nearer one, and the larger one when both are equally near. The search
is exact: it compares integers only.
-/

namespace BarScript

/-- The number `digits * 10 ^ exponent`. -/
structure Decimal where
  digits : Nat
  exponent : Int
  deriving DecidableEq, Repr

namespace Decimal

/-- The same number without trailing zero digits; zero has the exponent zero. -/
def trim (d : Decimal) : Decimal :=
  if d.digits = 0 then ⟨0, 0⟩
  else if h : d.digits % 10 = 0 then trim ⟨d.digits / 10, d.exponent + 1⟩
  else d
termination_by d.digits
decreasing_by omega

/-- `2 ^ k` as a quotient of naturals. -/
private def twoToInt (k : Int) : Nat × Nat :=
  if k ≥ 0 then (twoTo k.toNat, 1) else (1, twoTo (-k).toNat)

/-- The greatest `k` with `10 ^ k * den ≤ num`, for a quotient near `2 ^ log`. -/
private def tenLog (num den : Nat) (log : Int) : Int :=
  let atLeast (k : Int) : Bool :=
    if k ≥ 0 then tenTo k.toNat * den ≤ num else den ≤ num * tenTo (-k).toNat
  let guess := log * 30103 / 100000
  if atLeast (guess + 1) then guess + 1 else if atLeast guess then guess else guess - 1

/-- The decimal on the grid of `10 ^ step` next to `value / den`, if one lies between `low / den`
and `high / den`; the ends count only if `closed`. -/
private def onGrid (low value high den : Nat) (closed : Bool) (step : Int) : Option Decimal :=
  let scale : Nat := tenTo step.natAbs
  let (low, value, high, unit) :=
    if step ≥ 0 then (low, value, high, den * scale) else (low * scale, value * scale, high * scale, den)
  let below := value / unit
  let above := below + 1
  let belowIn := if closed then low ≤ below * unit else low < below * unit
  let aboveIn := if closed then above * unit ≤ high else above * unit < high
  let aboveNearer := above * unit - value ≤ value - below * unit
  if aboveIn ∧ (¬ belowIn ∨ aboveNearer) then some ⟨above, step⟩
  else if belowIn then some ⟨below, step⟩
  else none

/-- The shortest decimal of the float `mantissa * 2 ^ exponent`. -/
def shortest (mantissa : Nat) (exponent : Int) : Decimal :=
  if mantissa = 0 then ⟨0, 0⟩ else
  let (num, den) := twoToInt (exponent - 2)
  -- below a power of two the neighbours are twice as close
  let down := if mantissa = twoTo 52 ∧ exponent > -1074 then 1 else 2
  let low := (4 * mantissa - down) * num
  let value := 4 * mantissa * num
  let high := (4 * mantissa + 2) * num
  let closed := mantissa % 2 == 0
  let top := tenLog value den (exponent + mantissa.log2)
  let grids := (List.range 17).map fun (n : Nat) => top - n
  match grids.findSome? (onGrid low value high den closed) with
  | some d => d.trim
  | none => ⟨value / den, 0⟩

end Decimal

end BarScript
