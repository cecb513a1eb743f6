import BarScript.Arith

/-!
# Bars

A bar holds the prices of one interval of time: the price at its opening, the highest and the
lowest one, the one at its close, and the traded volume. `Bar.check` says whether it may be
appended to a market.
-/

namespace BarScript

/-- One interval of trading; the times are milliseconds since 1970. -/
structure Bar (α : Type) where
  openTime : Int
  closeTime : Int
  opening : α
  high : α
  low : α
  close : α
  volume : α
  deriving DecidableEq, Repr

/-- What is wrong with a bar that may not be appended. -/
inductive BarFault (α : Type) where
  /-- The named field is not a finite number. -/
  | notFinite (field : String)
  | highBelowLow (high low : α)
  | negativeVolume
  | closesBeforeOpening
  /-- The bar opens at or before the opening of the newest one. -/
  | notAfter (openTime newest : Int)

namespace BarFault

variable {α : Type} [Arith α]

/-- The fault in words. -/
def message : BarFault α → String
  | notFinite field => s!"{field} is not a finite number"
  | highBelowLow high low =>
    let (high, low) := (Arith.text high, Arith.text low)
    s!"high {high} is below low {low}"
  | negativeVolume => "volume is negative"
  | closesBeforeOpening => "close_time precedes open_time"
  | notAfter openTime newest => s!"open_time {openTime} is not after the newest bar ({newest})"

end BarFault

namespace Bar

variable {α : Type} [Arith α]

/-- The middle of the range. -/
def hl2 (b : Bar α) : α := (b.high + b.low) / 2

/-- The mean of high, low and close. -/
def hlc3 (b : Bar α) : α := (b.high + b.low + b.close) / 3

/-- The mean of all four prices. -/
def ohlc4 (b : Bar α) : α := (b.high + b.low + b.opening + b.close) / 4

/-- The range of a bar, extended to the close before it. -/
def trueRange (b : Bar α) (previousClose : α) : α :=
  let range := b.high - b.low
  let up := Arith.abs (b.high - previousClose)
  let down := Arith.abs (b.low - previousClose)
  Arith.max (Arith.max range up) down

/-- The numbers of a bar with their names, in the order in which they are checked. -/
def fields (b : Bar α) : List (String × α) :=
  [("open", b.opening), ("high", b.high), ("low", b.low), ("close", b.close),
    ("volume", b.volume)]

/-- The first fault of a bar, if it has one. -/
def fault? (b : Bar α) : Option (BarFault α) :=
  match b.fields.find? fun f => !Arith.isFinite f.2 with
  | some (name, _) => some (.notFinite name)
  | none =>
    if b.high < b.low then some (.highBelowLow b.high b.low)
    else if b.volume < 0 then some .negativeVolume
    else if b.closeTime < b.openTime then some .closesBeforeOpening
    else none

/-- Accepts the bars that may be appended to a market. -/
def check (b : Bar α) : Except (BarFault α) Unit :=
  match b.fault? with
  | some fault => .error fault
  | none => .ok ()

end Bar

end BarScript
