import BarScript.Indicator.Window

/-!
# Order statistics

The greatest, the least and the middle value of a trailing window.
-/

namespace BarScript

variable {α : Type} [Arith α]

def highest (xs : List α) (length : Nat) : List α :=
  windowed xs length fun w => w.foldl Arith.max Arith.lowest

def lowest (xs : List α) (length : Nat) : List α :=
  windowed xs length fun w => w.foldl Arith.min Arith.greatest

/-- The middle value in ascending order, or the mean of the two middle ones. -/
def windowMedian (w : List α) : α :=
  let ascending := w.mergeSort Arith.sortsBefore
  let mid := ascending.length / 2
  let upper := ascending.getD mid Arith.nan
  if ascending.length % 2 = 0 then (ascending.getD (mid - 1) Arith.nan + upper) / 2 else upper

def median (xs : List α) (length : Nat) : List α := windowed xs length windowMedian

end BarScript
