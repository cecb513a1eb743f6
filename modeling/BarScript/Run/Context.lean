import BarScript.Technical
import BarScript.Output.Sinks
import BarScript.Run.Results
import BarScript.Run.Store

/-!
# The state of a run

Everything that the steps of a run read and write: the market and the bar being evaluated, the
results so far, the stores, the indicator cache, the warm-up and the outputs.
-/

namespace BarScript

structure Context (α : Type) where
  market : Market α
  /-- The bar being evaluated, counted from the oldest one loaded. -/
  bar : Nat
  results : Results α
  stores : Stores α
  cache : Cache α
  warmup : Warmup
  precision : Precision
  useCache : Bool
  outputs : Outputs α
  deriving DecidableEq

namespace Context

variable {α : Type}

def fresh (market : Market α) (precision : Precision) (useCache : Bool) : Context α :=
  ⟨market, 0, .empty, .empty, .fresh, .fresh, precision, useCache, .empty⟩

/-- The market at the bar being evaluated. -/
def snapshot (ctx : Context α) : Snapshot α := ⟨ctx.market, ctx.bar⟩

/-- The opening time of the bar being evaluated. -/
def now (ctx : Context α) : Int := ctx.snapshot.now

/-- The indicators at the bar being evaluated. -/
def technical (ctx : Context α) : Technical α :=
  ⟨ctx.cache, ctx.warmup, ctx.snapshot, ctx.precision, ctx.useCache⟩

/-- Keeps what an indicator call has changed. -/
def absorb (ctx : Context α) (t : Technical α) : Context α :=
  { ctx with cache := t.cache, warmup := t.warmup }

def maxPeriod (ctx : Context α) : Option Nat := ctx.warmup.maxPeriod

end Context

end BarScript
