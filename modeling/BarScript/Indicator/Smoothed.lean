import BarScript.Indicator.Streaming

/-!
# Exponential averages

An exponential average starts with the mean of its first `period` available inputs; then every
available input moves it by the share `weight` of the distance. Unavailable inputs give an
unavailable output and leave the average alone. Stacks of such averages cancel their lag.
-/

namespace BarScript

/-- An exponential average on its way. -/
structure SmoothedState (α : Type) where
  period : Nat
  /-- The share of a new input. -/
  weight : α
  /-- The sum of the inputs before the first value. -/
  seedSum : α
  seedCount : Nat
  /-- The newest value. -/
  value : Option α
  deriving DecidableEq

namespace SmoothedState

variable {α : Type} [Arith α]

def fresh (period : Nat) (weight : α) : SmoothedState α := ⟨period, weight, 0, 0, none⟩

/-- The weight `2 / (period + 1)`. -/
def ema (period : Nat) : SmoothedState α := fresh period (2 / (Arith.ofCount period + 1))

/-- The weight `1 / period`. -/
def rma (period : Nat) : SmoothedState α := fresh period (1 / Arith.ofCount (Nat.max period 1))

/-- Collects an input for the first value. -/
def seed (s : SmoothedState α) (x : α) : α × SmoothedState α :=
  let s := { s with seedSum := s.seedSum + x, seedCount := s.seedCount + 1 }
  if s.seedCount < s.period then (Arith.nan, s)
  else
    let first := s.seedSum / Arith.ofCount s.period
    (first, { s with value := some first })

def next (s : SmoothedState α) (x : α) : α × SmoothedState α :=
  if s.period = 0 ∨ Arith.isNaN x then (Arith.nan, s)
  else
    match s.value with
    | some before =>
      let value := x * s.weight + before * (1 - s.weight)
      (value, { s with value := some value })
    | none => s.seed x

instance : Streaming (SmoothedState α) α α := ⟨next⟩

end SmoothedState

variable {α : Type} [Arith α]

/-- The exponential average with weight `2 / (period + 1)`. -/
def ema (xs : List α) (period : Nat) : List α := replay (SmoothedState.ema period : SmoothedState α) xs

/-- Wilder's average: the weight is `1 / period`. -/
def rma (xs : List α) (period : Nat) : List α := replay (SmoothedState.rma period : SmoothedState α) xs

/-- Twice the average less the average of the average. -/
def dema (xs : List α) (period : Nat) : List α :=
  let e1 := ema xs period
  let e2 := ema e1 period
  List.zipWith (fun a b => 2 * a - b) e1 e2

/-- Three averages stacked. -/
def tema (xs : List α) (period : Nat) : List α :=
  let e1 := ema xs period
  let e2 := ema e1 period
  let e3 := ema e2 period
  List.zipWith (fun ab c => 3 * ab.1 - 3 * ab.2 + c) (List.zip e1 e2) e3

end BarScript
