import BarScript.Config.Ini
import BarScript.Data.Request
import BarScript.Failure
import BarScript.Run.Precision

/-!
# Settings of a run

What a run needs to know: where the bars are, which of them to load, how many to evaluate, and how.
The settings come from a configuration file,

    [data]
    dir = ./data
    ticker = BTCUSDT
    timeframe = 1h
    limit = 1000
    start = 2024-01-01
    end = 2024-06-30

    [run]
    bars = 200
    use_cache = true
    precision = 10

and from overrides, which count more. A value that is blank is as good as missing. The settings are
checked in a fixed order, and the first fault is reported.
-/

namespace BarScript

structure Settings where
  directory : String
  request : Request
  /-- How many of the most recent bars to evaluate; all without a number. -/
  bars : Option Nat
  useCache : Bool
  precision : Precision
  deriving DecidableEq, Repr

/-- Values that count more than those of the file. -/
structure Overrides where
  directory : Option String
  ticker : Option String
  timeframe : Option String
  bars : Option Nat
  noCache : Bool
  precision : Option Nat
  deriving DecidableEq, Repr

def Overrides.none : Overrides := ⟨.none, .none, .none, .none, false, .none⟩

namespace Settings

/-- More decimals than this a number does not have. -/
def maxPrecision : Nat := 15

/-- The value of a key without the blanks around it, unless nothing is left. -/
def text? (ini : Ini) (group key : String) : Option String :=
  ((ini.find? group key).map Text.trim).filter (!·.isEmpty)

/-- An override, or the value of a key that has to be there. -/
def required (ini : Ini) (group key : String) (override : Option String) :
    Except Failure String :=
  match override <|> text? ini group key with
  | some s => .ok s
  | none => .error (.configMissing group key)

/-- The instant that a key gives. -/
def instant? (ini : Ini) (key : String) : Except Failure (Option Instant) :=
  match text? ini "data" key with
  | none => .ok none
  | some text =>
    match Instant.read? text with
    | some t => .ok (some t)
    | none => .error (.configInvalid "data" key
        s!"invalid {key} '{text}', expected YYYY-MM-DD, RFC 3339 or epoch milliseconds")

/-- A count that is not zero. -/
def positive (group key : String) : Option Nat → Except Failure (Option Nat)
  | some 0 => .error (.configInvalid group key s!"{key} must be positive")
  | n => .ok n

/-- The count that a key gives. -/
def count? (ini : Ini) (group key : String) : Except Failure (Option Nat) :=
  match text? ini group key with
  | none => .ok none
  | some text =>
    match readCount? (twoTo 64) text with
    | some n => positive group key (some n)
    | none => .error (.configInvalid group key s!"expected a positive integer, got '{text}'")

/-- An override, or the count that a key gives. -/
def countOr (ini : Ini) (group key : String) (override : Option Nat) :
    Except Failure (Option Nat) :=
  match override with
  | some n => positive group key (some n)
  | none => count? ini group key

/-- The span of time between two keys. -/
def span (ini : Ini) : Except Failure (Option Instant × Option Instant) := do
  let first ← instant? ini "start"
  let last ← instant? ini "end"
  match first, last with
  | some s, some t =>
    if t.isBefore s then .error (.configInvalid "data" "start" "start must not be after end")
    else .ok (first, last)
  | _, _ => .ok (first, last)

/-- The number of decimals that a key gives. -/
def digits (ini : Ini) : Except Failure Nat :=
  match text? ini "run" "precision" with
  | none => .ok Precision.standard.digits
  | some text =>
    match readCount? (twoTo 32) text with
    | some n => .ok n
    | none =>
      .error (.configInvalid "run" "precision" s!"expected a number of decimals, got '{text}'")

/-- A number of decimals that is not too large. -/
def checkDigits (n : Nat) : Except Failure Precision :=
  if n > maxPrecision then
    .error (.configInvalid "run" "precision" s!"precision must be at most {maxPrecision}")
  else .ok ⟨n⟩

/-- An override, or the number of decimals that a key gives. -/
def digitsOr (ini : Ini) (override : Option Nat) : Except Failure Precision := do
  checkDigits (← match override with
    | some n => .ok n
    | none => digits ini)

/-- The settings of a configuration file with some overrides. -/
def build (ini : Ini) (o : Overrides) : Except Failure Settings := do
  let ticker ← required ini "data" "ticker" o.ticker
  let timeframe ← required ini "data" "timeframe" o.timeframe
  let directory := (o.directory <|> text? ini "data" "dir").getD "."
  let (first, last) ← span ini
  let bars ← countOr ini "run" "bars" o.bars
  let limit ← count? ini "data" "limit"
  let precision ← digitsOr ini o.precision
  return ⟨directory, ⟨ticker, timeframe, limit, first, last⟩, bars,
    !o.noCache && ini.flag "run" "use_cache" true, precision⟩

end Settings

end BarScript
