import BarScript.Indicator.Streaming

/-!
# The relative strength index

The index compares the average gain with the average loss of the last changes: the mean of the
first `period` changes, then Wilder's average. It is 100 when nothing was lost. Unavailable inputs
are passed over.
-/

namespace BarScript

/-- Average gain and loss on their way; before the first value they are sums. -/
structure StrengthState (α : Type) where
  period : Nat
  /-- The newest available input. -/
  before : Option α
  /-- How many changes have been seen, up to `period`. -/
  changes : Nat
  gain : α
  loss : α
  deriving DecidableEq

namespace StrengthState

variable {α : Type} [Arith α]

def fresh (period : Nat) : StrengthState α := ⟨period, none, 0, 0, 0⟩

/-- The index of the two averages. -/
def index (s : StrengthState α) : α :=
  if s.loss == 0 then 100 else 100 - 100 / (1 + s.gain / s.loss)

/-- Takes a change of the input in. -/
def move (s : StrengthState α) (change : α) : α × StrengthState α :=
  let gain := Arith.max change 0
  let loss := Arith.max (-change) 0
  let n : α := Arith.ofCount s.period
  if s.changes < s.period then
    let s := { s with gain := s.gain + gain, loss := s.loss + loss, changes := s.changes + 1 }
    if s.changes < s.period then (Arith.nan, s)
    else
      let s := { s with gain := s.gain / n, loss := s.loss / n }
      (s.index, s)
  else
    let s := { s with gain := (s.gain * (n - 1) + gain) / n, loss := (s.loss * (n - 1) + loss) / n }
    (s.index, s)

def next (s : StrengthState α) (x : α) : α × StrengthState α :=
  if s.period = 0 ∨ Arith.isNaN x then (Arith.nan, s)
  else
    let moved := { s with before := some x }
    match s.before with
    | none => (Arith.nan, moved)
    | some before => moved.move (x - before)

instance : Streaming (StrengthState α) α α := ⟨next⟩

end StrengthState

variable {α : Type} [Arith α]

/-- The relative strength index at every position. -/
def rsi (xs : List α) (period : Nat) : List α := replay (StrengthState.fresh period : StrengthState α) xs

end BarScript
