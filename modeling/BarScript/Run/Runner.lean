import BarScript.Data.Request
import BarScript.Run.Engine
import BarScript.Script.Compile
import BarScript.Script.Evaluate

/-!
# Runners

A runner owns a market and the last script that compiled. It runs that script, or a new one, on a
fresh context or on one that an earlier run has left; bars may be appended in between.
-/

namespace BarScript

/-- A script that compiled, with its source. -/
structure CompiledScript where
  source : String
  program : Program

structure Runner (α : Type) where
  market : Market α
  compiled : Option CompiledScript
  useCache : Bool
  precision : Precision

namespace Runner

variable {α : Type}

/-- A runner on some bars, which may come in any order. -/
def ofBars (bars : List (Bar α)) : Runner α := ⟨.ofBars bars, none, true, .standard⟩

/-- A runner on the bars that a request has brought, which must not be none. -/
def ofRequest (request : Request) (bars : List (Bar α)) : Except Failure (Runner α) :=
  if bars.isEmpty then .error (.noData request.ticker request.timeframe) else .ok (ofBars bars)

/-- A context for a run from the start. -/
def context (r : Runner α) : Context α := .fresh r.market r.precision r.useCache

/-- Compiles a source, unless it is the one compiled last. -/
def compile (r : Runner α) (source : String) : Except Failure (Runner α) :=
  if r.compiled.any (·.source == source) then .ok r
  else
    match BarScript.compile source with
    | .ok program => .ok { r with compiled := some ⟨source, program⟩ }
    | .error failure => .error failure

/-- Compiles a source if there is one. -/
def compile? (r : Runner α) : Option String → Except Failure (Runner α)
  | some source => r.compile source
  | none => .ok r

variable [Arith α]

/-- Appends a bar. -/
def update (r : Runner α) (b : Bar α) : Except Failure (Runner α) :=
  match r.market.push b with
  | .ok market => .ok { r with market := market }
  | .error failure => .error failure

/-- A computation on a context as one that has no state of its own beside it. -/
def alone {β : Type} (m : EvalM α β) : RunM α Unit β := fun s =>
  match m s.1 with
  | .ok x ctx => .ok x (ctx, ())
  | .error failure ctx => .error failure (ctx, ())

/-- Runs a program over the most recent bars of a context. -/
def runProgram (p : Program) (ctx : Context α) (count : Option Nat) :
    Except Failure Unit × Context α :=
  match Engine.run (alone p.step) count (ctx, ()) with
  | .ok () (ctx, ()) => (.ok (), ctx)
  | .error failure (ctx, ()) => (.error failure, ctx)

/-- Runs a source, or the script compiled last, over the most recent bars and goes on with a
context. The runner keeps a script that compiled, and the context what was written until a failure;
a failure before the run leaves both alone. -/
def runIn (r : Runner α) (ctx : Context α) (source : Option String) (count : Option Nat) :
    Except Failure Unit × Context α × Runner α :=
  match r.compile? source with
  | .error failure => (.error failure, ctx, r)
  | .ok r =>
    match r.compiled with
    | none => (.error .noScript, ctx, r)
    | some script =>
      let (outcome, ctx) := runProgram script.program { ctx with market := r.market } count
      (outcome, ctx, r)

/-- Runs a source, or the script compiled last, on a fresh context. -/
def run (r : Runner α) (source : Option String) (count : Option Nat) :
    Except Failure (Context α) × Runner α :=
  let (outcome, ctx, r) := r.runIn r.context source count
  (outcome.map fun _ => ctx, r)

/-- Runs a step that was not compiled from a source on a fresh context. -/
def runStep {σ : Type} (r : Runner α) (step : RunM α σ (StepOutput α)) (own : σ)
    (count : Option Nat) : Except Failure Unit × Context α × σ :=
  match Engine.run step count (r.context, own) with
  | .ok () s => (.ok (), s)
  | .error failure s => (.error failure, s)

end Runner

end BarScript
