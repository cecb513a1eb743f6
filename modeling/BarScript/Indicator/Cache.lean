import BarScript.Assoc
import BarScript.Series
import BarScript.Indicator.Kind
import BarScript.Indicator.Mean
import BarScript.Indicator.Smoothed
import BarScript.Indicator.Strength
import BarScript.Indicator.TrueRange

/-!
# The indicator cache

Every call site of a streaming indicator has a handle. The cache keeps, per handle, the kind of the
last call, the number of inputs it had, all its results and the state after them. A call with the
same kind and one input more feeds that input only; any other call replays its whole input from a
fresh state. A call without input has no value and leaves the cache alone.
-/

namespace BarScript

/-- A streaming state of any of the cached indicators. -/
inductive CachedState (α : Type) where
  | mean (s : MeanState α)
  | smoothed (s : SmoothedState α)
  | strength (s : StrengthState α)
  | range (s : RangeState α)
  deriving DecidableEq

/-- The streaming states that a cache can keep. -/
class Cacheable (σ : Type) (α : outParam Type) where
  wrap : σ → CachedState α
  unwrap : CachedState α → Option σ
  unwrap_wrap : ∀ s, unwrap (wrap s) = some s

section

variable {α : Type}

instance : Cacheable (MeanState α) α where
  wrap := .mean
  unwrap | .mean s => some s | _ => none
  unwrap_wrap _ := rfl

instance : Cacheable (SmoothedState α) α where
  wrap := .smoothed
  unwrap | .smoothed s => some s | _ => none
  unwrap_wrap _ := rfl

instance : Cacheable (StrengthState α) α where
  wrap := .strength
  unwrap | .strength s => some s | _ => none
  unwrap_wrap _ := rfl

instance : Cacheable (RangeState α) α where
  wrap := .range
  unwrap | .range s => some s | _ => none
  unwrap_wrap _ := rfl

end

/-- What is kept for a handle. -/
structure CacheEntry (α : Type) where
  kind : Kind
  /-- How many inputs have been consumed. -/
  processed : Nat
  /-- The output at every input, the oldest first. -/
  results : Array α
  state : CachedState α
  deriving DecidableEq

structure Cache (α : Type) where
  entries : Assoc Nat (CacheEntry α)
  /-- How many calls fed one input only. -/
  warmHits : Nat
  /-- How many calls replaced an entry by a replay. -/
  coldRecomputes : Nat
  deriving DecidableEq

namespace Cache

variable {α : Type}

def fresh : Cache α := ⟨∅, 0, 0⟩

/-- Forgets all entries; the counts stay. -/
def clear (c : Cache α) : Cache α := { c with entries := ∅ }

def size (c : Cache α) : Nat := c.entries.size

/-- All results of a handle so far. -/
def results? (c : Cache α) (handle : Nat) : Option (Array α) :=
  (c.entries.find? handle).map (·.results)

variable {σ ι : Type} [Streaming σ ι α] [Cacheable σ α]

/-- The state that a call may continue: its entry has the same kind and one input less. -/
def warm? (c : Cache α) (handle : Nat) (kind : Kind) (size : Nat) : Option (CacheEntry α × σ) :=
  match c.entries.find? handle with
  | some e =>
    if e.kind = kind ∧ e.processed + 1 = size then (Cacheable.unwrap e.state).map fun s => (e, s)
    else none
  | none => none

/-- Continues an entry by the newest input. -/
def continueWith (c : Cache α) (handle : Nat) (e : CacheEntry α) (s : σ) (x : ι) : α × Cache α :=
  let (y, s) := Streaming.next s x
  let e := { e with
    processed := e.processed + 1, results := e.results.push y, state := Cacheable.wrap s }
  (y, { c with entries := c.entries.insert handle e, warmHits := c.warmHits + 1 })

/-- Replays all inputs from a fresh state. -/
def recompute [Arith α] (c : Cache α) (handle : Nat) (kind : Kind) (inputs : View ι) (init : σ) :
    α × Cache α :=
  let (ys, s) := feed init inputs.toList
  let replaced := if (c.entries.find? handle).isSome then 1 else 0
  (lastValue ys, { c with
    entries := c.entries.insert handle ⟨kind, inputs.size, ys.toArray, Cacheable.wrap s⟩
    coldRecomputes := c.coldRecomputes + replaced })

/-- The output at the newest input of a call. -/
def evaluate [Arith α] (c : Cache α) (handle : Nat) (kind : Kind) (inputs : View ι) (init : σ) :
    α × Cache α :=
  match inputs.current? with
  | none => (Arith.nan, c)
  | some x =>
    match (c.warm? handle kind inputs.size : Option (CacheEntry α × σ)) with
    | some (e, s) => c.continueWith handle e s x
    | none => c.recompute handle kind inputs init

end Cache

end BarScript
