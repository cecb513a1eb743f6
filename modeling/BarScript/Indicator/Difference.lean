import BarScript.Arith

/-!
# Differences

The change against the value `length` bars ago, plain or in percent.
-/

namespace BarScript

variable {α : Type} [Arith α]

/-- A function of the value at a position and the one `length` positions before it. -/
def lagged (xs : List α) (length : Nat) (f : α → α → α) : List α :=
  (List.range xs.length).map fun i =>
    if length = 0 ∨ i < length then Arith.nan
    else
      match xs[i]?, xs[i - length]? with
      | some now, some before => f now before
      | _, _ => Arith.nan

/-- The change against the value `length` bars ago. -/
def change (xs : List α) (length : Nat) : List α := lagged xs length fun now before => now - before

/-- Momentum is the change. -/
def mom (xs : List α) (length : Nat) : List α := change xs length

/-- The change in percent of the older value, unavailable when that is zero. -/
def roc (xs : List α) (length : Nat) : List α :=
  lagged xs length fun now before =>
    if before == 0 then Arith.nan else (now - before) / before * 100

end BarScript
