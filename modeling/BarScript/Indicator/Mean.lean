import BarScript.Indicator.Streaming

/-!
# The moving mean

The mean of the last `period` inputs, kept as a running sum. Unavailable inputs are only counted: a
window that holds one has no mean. An infinity that leaves the window cannot be subtracted, so the
sum is then taken again.
-/

namespace BarScript

/-- A running sum over the last inputs. -/
structure MeanState (α : Type) where
  period : Nat
  /-- The inputs in the window, the oldest first. -/
  window : List α
  /-- The sum of the available inputs in the window. -/
  sum : α
  /-- How many inputs in the window are unavailable. -/
  missing : Nat
  deriving DecidableEq

namespace MeanState

variable {α : Type} [Arith α]

def fresh (period : Nat) : MeanState α := ⟨period, [], 0, 0⟩

/-- Makes room in a full window. -/
def dropOldest (s : MeanState α) : MeanState α :=
  match s.window with
  | [] => s
  | old :: rest =>
    let s := { s with window := rest }
    if Arith.isNaN old then { s with missing := s.missing - 1 }
    else if Arith.isFinite old then { s with sum := s.sum - old }
    else { s with sum := Arith.sum (rest.filter (!Arith.isNaN ·)) }

/-- Appends an input to the window. -/
def add (s : MeanState α) (x : α) : MeanState α :=
  let s := if Arith.isNaN x then { s with missing := s.missing + 1 } else { s with sum := s.sum + x }
  { s with window := s.window ++ [x] }

/-- The mean of a full window without a gap. -/
def mean (s : MeanState α) : α :=
  if s.window.length < s.period ∨ s.missing > 0 then Arith.nan
  else s.sum / Arith.ofCount s.period

def next (s : MeanState α) (x : α) : α × MeanState α :=
  if s.period = 0 then (Arith.nan, s)
  else
    let s := if s.window.length = s.period then s.dropOldest else s
    let s := s.add x
    (s.mean, s)

instance : Streaming (MeanState α) α α := ⟨next⟩

end MeanState

variable {α : Type} [Arith α]

/-- The mean of the last `period` values at every position. -/
def sma (xs : List α) (period : Nat) : List α := replay (MeanState.fresh period : MeanState α) xs

end BarScript
