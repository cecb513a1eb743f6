import BarScript.Arith

/-!
# Trailing windows

Many indicators are a function of the newest values up to a bar. `windowed` applies one wherever
the window is complete and holds no unavailable value, and is unavailable elsewhere.
-/

namespace BarScript

variable {α β : Type}

/-- The newest `n` elements, or all if there are fewer. -/
def newest (n : Nat) (xs : List β) : List β := xs.drop (xs.length - n)

/-- Two lists cut at the older end to the length of the shorter one. -/
def aligned (xs : List α) (ys : List β) : List α × List β :=
  let n := Nat.min xs.length ys.length
  (newest n xs, newest n ys)

variable [Arith α]

/-- The `period` values that end at position `i`, if there are as many and all are available. -/
def window? (xs : List α) (period i : Nat) : Option (List α) :=
  if period = 0 ∨ i + 1 < period ∨ i ≥ xs.length then none
  else
    let w := (xs.drop (i + 1 - period)).take period
    if w.any Arith.isNaN then none else some w

/-- A function of the trailing window at every position. -/
def windowed (xs : List α) (period : Nat) (f : List α → α) : List α :=
  (List.range xs.length).map fun i => ((window? xs period i).map f).getD Arith.nan

@[simp] theorem length_windowed (xs : List α) (period : Nat) (f : List α → α) :
    (windowed xs period f).length = xs.length := by
  simp [windowed]

end BarScript
