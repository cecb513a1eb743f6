import BarScript.Indicator.TrueRange

/-!
# Supertrend

Two bands lie at a multiple of the average true range around the middle of the bar. The upper band
only falls and the lower one only rises, until a close goes beyond. The line is the lower band while
the trend is up and the upper band while it is down; a close beyond the line turns the trend. A bar
with an unavailable price has no line and changes nothing.
-/

namespace BarScript

inductive Trend where
  | up | down
  deriving DecidableEq, Repr

/-- `1` for a trend up, `-1` for a trend down. -/
def Trend.direction {α : Type} [Arith α] : Trend → α
  | up => 1
  | down => -1

structure Bands (α : Type) where
  upper : α
  lower : α
  trend : Trend
  deriving DecidableEq, Repr

/-- What a bar contributes: the bands around its middle, its close and the close before it. -/
structure BandInput (α : Type) where
  upper : α
  lower : α
  close : α
  previousClose : α

namespace Bands

variable {α : Type} [Arith α]

/-- The band that the trend follows. -/
def line (b : Bands α) : α :=
  match b.trend with
  | .up => b.lower
  | .down => b.upper

/-- The bands of the first bar. -/
def first (x : BandInput α) : Bands α :=
  ⟨x.upper, x.lower, if x.close ≤ x.upper then .down else .up⟩

/-- The bands after another bar. -/
def next (b : Bands α) (x : BandInput α) : Bands α :=
  let upper := if x.upper < b.upper ∨ b.upper < x.previousClose then x.upper else b.upper
  let lower := if b.lower < x.lower ∨ x.previousClose < b.lower then x.lower else b.lower
  let trend :=
    match b.trend with
    | .down => if upper < x.close then .up else .down
    | .up => if x.close < lower then .down else .up
  ⟨upper, lower, trend⟩

/-- The bands at every bar; none where a number is unavailable. -/
def trace (state : Option (Bands α)) : List (BandInput α) → List (Option (Bands α))
  | [] => []
  | x :: xs =>
    if Arith.isNaN x.upper || Arith.isNaN x.lower || Arith.isNaN x.close then
      none :: trace state xs
    else
      let bands := match state with
        | none => first x
        | some b => b.next x
      some bands :: trace (some bands) xs

end Bands

variable {α : Type} [Arith α]

/-- The inputs of all bars. -/
def bandInputs (high low close : List α) (factor : α) (period : Nat) : List (BandInput α) :=
  let bars := Reach.zip high low close
  let ranges := replay (RangeState.fresh period : RangeState α) bars
  let previous := Arith.nan :: bars.map (·.close)
  List.zipWith (fun br c =>
    let middle := (br.1.high + br.1.low) / 2
    ⟨middle + factor * br.2, middle - factor * br.2, br.1.close, c⟩) (List.zip bars ranges) previous

/-- The bands at every bar; the first `period` bars have none. -/
def supertrendBands (high low close : List α) (factor : α) (period : Nat) :
    List (Option (Bands α)) :=
  let inputs := bandInputs high low close factor period
  if period = 0 then inputs.map fun _ => none
  else (inputs.take period).map (fun _ => none) ++ Bands.trace none (inputs.drop period)

/-- The line and the direction at every bar. -/
def supertrend (high low close : List α) (factor : α) (period : Nat) : List α × List α :=
  let bands := supertrendBands high low close factor period
  (bands.map fun b => (b.map Bands.line).getD Arith.nan,
    bands.map fun b => (b.map fun b => b.trend.direction).getD Arith.nan)

end BarScript
