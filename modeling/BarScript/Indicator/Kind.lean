import BarScript.Arith
import BarScript.Arith.Root
import BarScript.Decimal.Notation

/-!
# Kinds of indicators

`Kind` is the identity of an indicator call: which indicator, with which parameters. It says how
many bars the call looks back on (`Kind.lookback`) and has a short text (`Kind.text`). Counts stop
at `Arith.maxCount`.
-/

namespace BarScript

inductive Kind where
  | sma (period : Nat)
  | ema (period : Nat)
  | rma (period : Nat)
  | wma (period : Nat)
  | hma (period : Nat)
  | vwma (period : Nat)
  | dema (period : Nat)
  | tema (period : Nat)
  | swma
  | rsi (period : Nat)
  | atr (period : Nat)
  | change (period : Nat)
  | mom (period : Nat)
  | roc (period : Nat)
  | stdev (length : Nat) (biased : Bool)
  | variance (length : Nat) (biased : Bool)
  | dev (period : Nat)
  | highest (period : Nat)
  | lowest (period : Nat)
  | median (period : Nat)
  | linreg (length : Nat) (offset : Int)
  /-- The factor is kept in hundredths. -/
  | supertrend (hundredths : Nat) (period : Nat)
  | vwap
  deriving DecidableEq, Repr

/-- The length of the last average of a Hull average. -/
def hullSmoothing (period : Nat) : Nat := wholeRoot period

/-- How many bars a Hull average looks back on. -/
def hullLookback (period : Nat) : Nat :=
  if period / 2 = 0 ∨ hullSmoothing period = 0 then period
  else Arith.addCount period (hullSmoothing period - 1)

namespace Kind

/-- How many bars are needed, the current one included, before the indicator has a value. -/
def lookback : Kind → Nat
  | sma p | ema p | rma p | wma p | vwma p | atr p | dev p | highest p | lowest p | median p => p
  | rsi p | change p | mom p | roc p => Arith.addCount p 1
  | hma p => hullLookback p
  | dema p => Arith.mulCount p 2 - 1
  | tema p => Arith.mulCount p 3 - 2
  | swma => 4
  | stdev n _ | variance n _ | linreg n _ => n
  | supertrend _ p => Arith.addCount p 1
  | vwap => 1

/-- The indicator and its parameters. -/
def text : Kind → String
  | sma p => s!"sma({p})"
  | ema p => s!"ema({p})"
  | rma p => s!"rma({p})"
  | wma p => s!"wma({p})"
  | hma p => s!"hma({p})"
  | vwma p => s!"vwma({p})"
  | dema p => s!"dema({p})"
  | tema p => s!"tema({p})"
  | swma => "swma"
  | rsi p => s!"rsi({p})"
  | atr p => s!"atr({p})"
  | change p => s!"change({p})"
  | mom p => s!"mom({p})"
  | roc p => s!"roc({p})"
  | stdev n b => s!"stdev({n},{b})"
  | variance n b => s!"variance({n},{b})"
  | dev p => s!"dev({p})"
  | highest p => s!"highest({p})"
  | lowest p => s!"lowest({p})"
  | median p => s!"median({p})"
  | linreg n o => s!"linreg({n},{o})"
  | supertrend h p =>
    let factor := (Decimal.trim ⟨h, -2⟩).plain
    s!"supertrend({factor},{p})"
  | vwap => "vwap"

end Kind

end BarScript
