/-!
# Warm-up

A run keeps the longest lookback that an indicator call asked for. The calls of a bar are collected
first and count once the bar is complete.
-/

namespace BarScript

structure Warmup where
  /-- The longest lookback of the bar being evaluated; zero if no call asked for one. -/
  pending : Nat
  /-- The longest lookback of the completed bars. -/
  maxPeriod : Option Nat
  deriving DecidableEq, Repr

namespace Warmup

def fresh : Warmup := ⟨0, none⟩

/-- Takes a lookback into the current bar. -/
def observe (w : Warmup) (lookback : Nat) : Warmup := { w with pending := Nat.max w.pending lookback }

/-- Completes the current bar. -/
def merge (w : Warmup) : Warmup :=
  if w.pending > 0 then ⟨0, some (Nat.max (w.maxPeriod.getD 0) w.pending)⟩ else { w with pending := 0 }

end Warmup

end BarScript
