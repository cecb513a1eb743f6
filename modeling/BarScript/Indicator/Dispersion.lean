import BarScript.Indicator.Window

/-!
# Dispersion

Variance, standard deviation and mean absolute deviation of a trailing window. A biased variance
divides by the number of values, an unbiased one by one less.
-/

namespace BarScript

variable {α : Type} [Arith α]

def windowMean (w : List α) : α := Arith.sum w / Arith.ofCount w.length

def windowVariance (w : List α) (biased : Bool) : α :=
  let m := windowMean w
  let squares := Arith.sum (w.map fun v => (v - m) * (v - m))
  let divisor := if biased then w.length else w.length - 1
  if divisor = 0 then Arith.nan else squares / Arith.ofCount divisor

def variance (xs : List α) (length : Nat) (biased : Bool) : List α :=
  windowed xs length fun w => windowVariance w biased

def stdev (xs : List α) (length : Nat) (biased : Bool) : List α :=
  windowed xs length fun w => Arith.sqrt (windowVariance w biased)

/-- The mean distance from the mean. -/
def dev (xs : List α) (length : Nat) : List α :=
  windowed xs length fun w =>
    let m := windowMean w
    Arith.sum (w.map fun v => Arith.abs (v - m)) / Arith.ofCount w.length

end BarScript
