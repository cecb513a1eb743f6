import BarScript.Script.Tree

/-!
# Functions of a script

The indicators and the mathematical functions that a script can call, with their names and
parameters.
-/

namespace BarScript

/-- An indicator that a script can call. -/
inductive Study where
  | sma | ema | rma | rsi | atr
  | wma | hma | vwma | dema | tema | swma
  | change | mom | roc
  | stdev | variance | dev
  | highest | lowest | median | linreg
  | supertrend | vwap | tr
  | crossover | crossunder
  deriving DecidableEq, Repr

/-- What an argument is taken for. -/
inductive ParamKind where
  | series
  | number
  | optionalSeries
  | optionalNumber
  /-- A number with a default. -/
  | default (l : Literal)
  deriving DecidableEq, Repr

structure Param where
  name : String
  kind : ParamKind
  deriving DecidableEq, Repr

namespace Study

def all : List Study :=
  [sma, ema, rma, rsi, atr, wma, hma, vwma, dema, tema, swma, change, mom, roc, stdev, variance,
    dev, highest, lowest, median, linreg, supertrend, vwap, tr, crossover, crossunder]

/-- The name a script calls. -/
def name : Study → String
  | sma => "ta.sma" | ema => "ta.ema" | rma => "ta.rma" | rsi => "ta.rsi" | atr => "ta.atr"
  | wma => "ta.wma" | hma => "ta.hma" | vwma => "ta.vwma" | dema => "ta.dema" | tema => "ta.tema"
  | swma => "ta.swma" | change => "ta.change" | mom => "ta.mom" | roc => "ta.roc"
  | stdev => "ta.stdev" | variance => "ta.variance" | dev => "ta.dev"
  | highest => "ta.highest" | lowest => "ta.lowest" | median => "ta.median"
  | linreg => "ta.linreg" | supertrend => "ta.supertrend" | vwap => "ta.vwap" | tr => "ta.tr"
  | crossover => "ta.crossover" | crossunder => "ta.crossunder"

def ofName? (s : String) : Option Study := all.find? (·.name == s)

/-- The call goes through the indicator cache. -/
def cached : Study → Bool
  | sma | ema | rma | rsi | atr => true
  | _ => false

def params : Study → List Param
  | atr => [⟨"length", .number⟩]
  | swma => [⟨"source", .series⟩]
  | change => [⟨"source", .series⟩, ⟨"length", .default (.ofNat 1)⟩]
  | stdev | variance => [⟨"source", .series⟩, ⟨"length", .number⟩, ⟨"biased", .default (.ofNat 1)⟩]
  | linreg => [⟨"source", .series⟩, ⟨"length", .number⟩, ⟨"offset", .default (.ofNat 0)⟩]
  | supertrend => [⟨"factor", .number⟩, ⟨"atrPeriod", .number⟩]
  | vwap => [⟨"source", .series⟩, ⟨"anchor", .optionalSeries⟩, ⟨"stdev_mult", .optionalNumber⟩]
  | tr => [⟨"handle_na", .default (.ofNat 0)⟩]
  | crossover | crossunder => [⟨"source1", .series⟩, ⟨"source2", .series⟩]
  | sma | ema | rma | rsi | wma | hma | vwma | dema | tema | mom | roc | dev | highest | lowest
  | median => [⟨"source", .series⟩, ⟨"length", .number⟩]

end Study

/-- A mathematical function that a script can call. -/
inductive MathFn where
  | abs | max | min | sqrt | log | exp | pow | round | floor | ceil | sign
  deriving DecidableEq, Repr

/-- How many arguments a function takes. -/
structure ArgCount where
  least : Nat
  /-- None if there is no limit. -/
  most : Option Nat
  deriving DecidableEq, Repr

namespace ArgCount

def exactly (n : Nat) : ArgCount := ⟨n, some n⟩

def admits (c : ArgCount) (n : Nat) : Bool := c.least ≤ n && c.most.all (n ≤ ·)

/-- The count in words. -/
def text (c : ArgCount) : String :=
  let least := c.least
  match c.most with
  | none => s!"at least {least}"
  | some most => if least = most then s!"{least}" else s!"{least} to {most}"

end ArgCount

namespace MathFn

def all : List MathFn := [abs, max, min, sqrt, log, exp, pow, round, floor, ceil, sign]

/-- The name a script calls. -/
def name : MathFn → String
  | abs => "math.abs" | max => "math.max" | min => "math.min" | sqrt => "math.sqrt"
  | log => "math.log" | exp => "math.exp" | pow => "math.pow" | round => "math.round"
  | floor => "math.floor" | ceil => "math.ceil" | sign => "math.sign"

def ofName? (s : String) : Option MathFn := all.find? (·.name == s)

def argCount : MathFn → ArgCount
  | max | min => ⟨2, none⟩
  | pow => .exactly 2
  | round => ⟨1, some 2⟩
  | _ => .exactly 1

variable {α : Type} [Arith α]

/-- The largest or smallest of some numbers, unavailable if one of them is. -/
def extreme (pick : α → α → α) (x : α) (args : List α) : α :=
  if args.any Arith.isNaN then Arith.nan else args.foldl pick x

/-- Rounds to a number of decimals. -/
def roundTo (x decimals : α) : α :=
  if Arith.isFinite decimals then
    let scale : α := Arith.powerOfTen (Arith.toIntClamped (-(twoTo 31 : Int)) (twoTo 31 - 1) decimals)
    Arith.round (x * scale) / scale
  else Arith.nan

/-- The value of a function. -/
def apply (f : MathFn) (args : List α) : α :=
  let x := args.headD Arith.nan
  match f with
  | abs => Arith.abs x
  | max => extreme Arith.max x args
  | min => extreme Arith.min x args
  | sqrt => Arith.sqrt x
  | log => if 0 < x then Arith.log x else Arith.nan
  | exp => Arith.exp x
  | pow => Arith.pow x (args.getD 1 Arith.nan)
  | round =>
    match args[1]? with
    | some decimals => roundTo x decimals
    | none => Arith.round x
  | floor => Arith.floor x
  | ceil => Arith.ceil x
  | sign => if Arith.isNaN x || x == 0 then x else if 0 < x then 1 else -1

end MathFn

end BarScript
