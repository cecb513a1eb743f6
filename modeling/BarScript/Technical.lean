import BarScript.Market
import BarScript.Run.Precision
import BarScript.Run.Warmup
import BarScript.Indicator.Anchored
import BarScript.Indicator.Cache
import BarScript.Indicator.Difference
import BarScript.Indicator.Dispersion
import BarScript.Indicator.Extreme
import BarScript.Indicator.Regression
import BarScript.Indicator.Supertrend
import BarScript.Indicator.Weighted

/-!
# Indicators at one bar

The indicators as a script calls them: the value at the current bar, of series that end there. Every
call reports its lookback to the warm-up and rounds its result. The streaming indicators go through
the cache if the call has a handle and caching is on. An indicator of a trailing window is given the
newest values only, as many as it looks back on.
-/

namespace BarScript

/-- What the calls at a bar share: the market at that bar, and the state that they change. -/
structure Technical (α : Type) where
  cache : Cache α
  warmup : Warmup
  snapshot : Snapshot α
  precision : Precision
  useCache : Bool

namespace Technical

variable {α : Type} [Arith α]

/-- Reports the lookback of a call and rounds its value. -/
def finish (t : Technical α) (kind : Kind) (value : α) : α × Technical α :=
  (t.precision.apply value, { t with warmup := t.warmup.observe kind.lookback })

/-- The value of a streaming indicator, from the cache or by `full`. -/
def streaming {σ ι : Type} [Streaming σ ι α] [Cacheable σ α] (t : Technical α)
    (handle : Option Nat) (kind : Kind) (inputs : View ι) (init : σ) (full : Unit → α) :
    α × Technical α :=
  match handle with
  | some h =>
    if t.useCache then
      let (value, cache) := t.cache.evaluate h kind inputs init
      { t with cache := cache }.finish kind value
    else t.finish kind (full ())
  | none => t.finish kind (full ())

def sma (t : Technical α) (source : View α) (period : Nat) (handle : Option Nat) :
    α × Technical α :=
  t.streaming handle (.sma period) source (MeanState.fresh period : MeanState α)
    fun _ => lastValue (BarScript.sma (newest period source.toList) period)

def ema (t : Technical α) (source : View α) (period : Nat) (handle : Option Nat) :
    α × Technical α :=
  t.streaming handle (.ema period) source (SmoothedState.ema period : SmoothedState α)
    fun _ => lastValue (BarScript.ema source.toList period)

def rma (t : Technical α) (source : View α) (period : Nat) (handle : Option Nat) :
    α × Technical α :=
  t.streaming handle (.rma period) source (SmoothedState.rma period : SmoothedState α)
    fun _ => lastValue (BarScript.rma source.toList period)

def rsi (t : Technical α) (source : View α) (period : Nat) (handle : Option Nat) :
    α × Technical α :=
  t.streaming handle (.rsi period) source (StrengthState.fresh period : StrengthState α)
    fun _ => lastValue (BarScript.rsi source.toList period)

/-- The values of a price up to the current bar. -/
def prices (t : Technical α) (p : Price) : List α := (t.snapshot.price p).toList

/-- The average true range of the market itself. -/
def atr (t : Technical α) (period : Nat) (handle : Option Nat) : α × Technical α :=
  t.streaming handle (.atr period) (t.snapshot.view fun b => (⟨b.high, b.low, b.close⟩ : Reach α))
    (RangeState.fresh period : RangeState α)
    fun _ => lastValue (BarScript.atr (t.prices .high) (t.prices .low) (t.prices .close) period)

def wma (t : Technical α) (source : View α) (period : Nat) : α × Technical α :=
  t.finish (.wma period) (lastValue (BarScript.wma (newest period source.toList) period))

def hma (t : Technical α) (source : View α) (period : Nat) : α × Technical α :=
  t.finish (.hma period)
    (lastValue (BarScript.hma (newest (hullLookback period) source.toList) period))

/-- The mean weighted by the volume of the market. -/
def vwma (t : Technical α) (source : View α) (period : Nat) : α × Technical α :=
  let (xs, volume) := aligned source.toList (t.prices .volume)
  t.finish (.vwma period)
    (lastValue (BarScript.vwma (newest period xs) (newest period volume) period))

def dema (t : Technical α) (source : View α) (period : Nat) : α × Technical α :=
  t.finish (.dema period) (lastValue (BarScript.dema source.toList period))

def tema (t : Technical α) (source : View α) (period : Nat) : α × Technical α :=
  t.finish (.tema period) (lastValue (BarScript.tema source.toList period))

def swma (t : Technical α) (source : View α) : α × Technical α :=
  t.finish .swma (lastValue (BarScript.swma (newest 4 source.toList)))

def change (t : Technical α) (source : View α) (length : Nat) : α × Technical α :=
  t.finish (.change length)
    (lastValue (BarScript.change (newest (Arith.addCount length 1) source.toList) length))

def mom (t : Technical α) (source : View α) (length : Nat) : α × Technical α :=
  t.finish (.mom length)
    (lastValue (BarScript.mom (newest (Arith.addCount length 1) source.toList) length))

def roc (t : Technical α) (source : View α) (length : Nat) : α × Technical α :=
  t.finish (.roc length)
    (lastValue (BarScript.roc (newest (Arith.addCount length 1) source.toList) length))

def stdev (t : Technical α) (source : View α) (length : Nat) (biased : Bool) : α × Technical α :=
  t.finish (.stdev length biased)
    (lastValue (BarScript.stdev (newest length source.toList) length biased))

def variance (t : Technical α) (source : View α) (length : Nat) (biased : Bool) :
    α × Technical α :=
  t.finish (.variance length biased)
    (lastValue (BarScript.variance (newest length source.toList) length biased))

def dev (t : Technical α) (source : View α) (length : Nat) : α × Technical α :=
  t.finish (.dev length) (lastValue (BarScript.dev (newest length source.toList) length))

def highest (t : Technical α) (source : View α) (length : Nat) : α × Technical α :=
  t.finish (.highest length) (lastValue (BarScript.highest (newest length source.toList) length))

def lowest (t : Technical α) (source : View α) (length : Nat) : α × Technical α :=
  t.finish (.lowest length) (lastValue (BarScript.lowest (newest length source.toList) length))

def median (t : Technical α) (source : View α) (length : Nat) : α × Technical α :=
  t.finish (.median length) (lastValue (BarScript.median (newest length source.toList) length))

def linreg (t : Technical α) (source : View α) (length : Nat) (offset : Int) : α × Technical α :=
  t.finish (.linreg length offset)
    (lastValue (BarScript.linreg (newest length source.toList) length offset))

/-- A factor in hundredths, as far as a 32-bit word goes. -/
def hundredths (factor : α) : Nat :=
  (Arith.toIntClamped 0 (twoTo 32 - 1) (Arith.round (Arith.max factor 0 * 100))).toNat

/-- The line, rounded, and the direction of the trend. -/
def supertrend (t : Technical α) (factor : α) (period : Nat) : (α × α) × Technical α :=
  let (lines, directions) :=
    BarScript.supertrend (t.prices .high) (t.prices .low) (t.prices .close) factor period
  let (line, t) := t.finish (.supertrend (hundredths factor) period) (lastValue lines)
  ((line, lastValue directions), t)

/-- The bars at which a series is available and not zero. -/
def flags (anchor : View α) : List Bool := anchor.toList.map Arith.truth

def vwap (t : Technical α) (source : View α) (anchor : Option (View α)) : α × Technical α :=
  t.finish .vwap
    (lastValue (BarScript.vwap source.toList (t.prices .volume) (anchor.map flags)))

/-- The mean, the upper and the lower band, each rounded. -/
def vwapBands (t : Technical α) (source : View α) (anchor : Option (View α)) (multiple : α) :
    (α × α × α) × Technical α :=
  let out := BarScript.vwapBands source.toList (t.prices .volume) (anchor.map flags) multiple
  let (mean, t) := t.finish .vwap (lastValue out.mean)
  ((mean, t.precision.apply (lastValue out.upper), t.precision.apply (lastValue out.lower)), t)

/-- The true range of the current bar. -/
def trueRange (t : Technical α) (handleMissing : Bool) : α × Technical α :=
  let close := t.snapshot.price .close
  let bar : Reach α := ⟨(t.snapshot.price .high).ago 0, (t.snapshot.price .low).ago 0, close.ago 0⟩
  (t.precision.apply (bar.trueRange (close.ago? 1) handleMissing),
    { t with warmup := t.warmup.observe (if handleMissing then 1 else 2) })

/-- The first series rose above the second at this bar. -/
def crossover (t : Technical α) (a b : View α) : Bool × Technical α :=
  (decide (b.ago 0 < a.ago 0) && decide (a.ago 1 ≤ b.ago 1),
    { t with warmup := t.warmup.observe 2 })

/-- The first series fell below the second at this bar. -/
def crossunder (t : Technical α) (a b : View α) : Bool × Technical α :=
  (decide (a.ago 0 < b.ago 0) && decide (b.ago 1 ≤ a.ago 1),
    { t with warmup := t.warmup.observe 2 })

end Technical

end BarScript
