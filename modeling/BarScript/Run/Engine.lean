import BarScript.Run.Context

/-!
# The engine

A run visits the most recent bars, the oldest of them first. At every bar it points the context
there, calls the step, appends its output to the results, counts the lookbacks of the bar and
carries the stores to the next one. A failure ends the run; what the completed bars and the failed
step have written stays in the context.
-/

namespace BarScript

/-- A computation on the context of a run and a state `σ` of its own, which may fail. -/
abbrev RunM (α σ : Type) := EStateM Failure (Context α × σ)

/-- The first of the `count` most recent bars out of `total`, and the end of the bars. -/
def barRange (total : Nat) (count : Option Nat) : Nat × Nat :=
  (total - Nat.min (count.getD total) total, total)

namespace Engine

variable {α σ : Type} [Arith α]

/-- Points the context at a bar. -/
def enter (ctx : Context α) (bar : Nat) : Context α := { ctx with bar := bar }

/-- Completes the bar of the context: counts its lookbacks and carries the stores on. -/
def leave (ctx : Context α) (results : Results α) : Context α :=
  { ctx with results := results, warmup := ctx.warmup.merge, stores := ctx.stores.shiftAll }

/-- Takes the output of a step in and completes the bar. -/
def collect (output : StepOutput α) : RunM α σ Unit := do
  let (ctx, own) ← get
  match ctx.results.push ctx.bar output with
  | .ok results => set (leave ctx results, own)
  | .error failure => throw failure

/-- One bar. -/
def visit (step : RunM α σ (StepOutput α)) (bar : Nat) : RunM α σ Unit := do
  modify fun s => (enter s.1 bar, s.2)
  let output ← step
  collect output

/-- The bars of a list, one after the other. -/
def visitAll (step : RunM α σ (StepOutput α)) : List Nat → RunM α σ Unit
  | [] => pure ()
  | bar :: bars => do
    visit step bar
    visitAll step bars

/-- The `count` most recent bars of the market of the context; all of them without a count. -/
def run (step : RunM α σ (StepOutput α)) (count : Option Nat) : RunM α σ Unit := do
  let (ctx, _) ← get
  let (first, total) := barRange ctx.market.size count
  visitAll step (List.range' first (total - first))

end Engine

end BarScript
