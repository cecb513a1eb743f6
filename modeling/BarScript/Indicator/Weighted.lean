import BarScript.Indicator.Window
import BarScript.Indicator.Kind

/-!
# Weighted means of a window

Means that weigh the values of a window by their age (`wma`, `swma`), by another series (`vwma`),
and Hull's combination of the first (`hma`).
-/

namespace BarScript

variable {α : Type} [Arith α]

/-- The mean with the weights 1, 2, 3, and so on, the newest value weighing most. -/
def weightedMean (w : List α) : α :=
  let n := w.length
  let divisor : α := Arith.ofCount (n * (n + 1)) / 2
  let numerator : α := Arith.sum (w.zipIdx.map fun (v, j) => Arith.ofCount (j + 1) * v)
  numerator / divisor

/-- The weighted mean of the last `period` values. -/
def wma (xs : List α) (period : Nat) : List α := windowed xs period weightedMean

/-- Hull's average: the weighted mean of twice the mean over half the period less the mean over the
whole, over the root of the period. -/
def hma (xs : List α) (period : Nat) : List α :=
  let half := wma xs (period / 2)
  let whole := wma xs period
  wma (List.zipWith (fun h w => 2 * h - w) half whole) (hullSmoothing period)

/-- The mean of the last four values with the weights 1, 2, 2, 1. -/
def swma (xs : List α) : List α :=
  windowed xs 4 fun
    | [a, b, c, d] => (a + 2 * b + 2 * c + d) / 6
    | _ => Arith.nan

/-- The mean weighted by volume. The two series end at the same bar. -/
def vwma (xs volume : List α) (period : Nat) : List α :=
  let (xs, volume) := aligned xs volume
  (List.range xs.length).map fun i =>
    match window? xs period i, window? volume period i with
    | some p, some v => Arith.sum (List.zipWith (· * ·) p v) / Arith.sum v
    | _, _ => Arith.nan

end BarScript
