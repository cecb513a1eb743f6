import BarScript.Data.Request
import BarScript.Market

/-!
# Series in memory

Series of bars by ticker and timeframe, each in the order of its opening times.
-/

namespace BarScript

/-- A series of bars with its name. -/
structure NamedSeries (α : Type) where
  ticker : String
  timeframe : String
  bars : List (Bar α)
  deriving DecidableEq

/-- Series of bars; no two have the same name. -/
structure Memory (α : Type) where
  series : List (NamedSeries α)
  deriving DecidableEq

namespace Memory

variable {α : Type}

def empty : Memory α := ⟨[]⟩

/-- A series has a given name. -/
def hasName (ticker timeframe : String) (s : NamedSeries α) : Bool :=
  s.ticker == ticker && s.timeframe == timeframe

/-- Stores bars, which may come in any order, in place of what a name stood for. -/
def insert (m : Memory α) (ticker timeframe : String) (bars : List (Bar α)) : Memory α :=
  ⟨⟨ticker, timeframe, Market.sorted bars⟩ :: m.series.filter (!hasName ticker timeframe ·)⟩

/-- The bars that a name stands for; none for an unknown name. -/
def bars (m : Memory α) (ticker timeframe : String) : List (Bar α) :=
  ((m.series.find? (hasName ticker timeframe)).map (·.bars)).getD []

/-- The bars that a request asks for. -/
def fetch (m : Memory α) (r : Request) : List (Bar α) := r.select (m.bars r.ticker r.timeframe)

/-- The tickers of a timeframe, sorted. -/
def tickers (m : Memory α) (timeframe : String) : List String :=
  ((m.series.filter (·.timeframe == timeframe)).map (·.ticker)).mergeSort fun a b => !decide (b < a)

/-- The extent of a series. -/
def extent? (m : Memory α) (ticker timeframe : String) : Option Extent :=
  Extent.ofBars? (m.bars ticker timeframe)

end Memory

end BarScript
