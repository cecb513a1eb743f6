import BarScript.Market.Bar

/-!
# Prices by name

The numbers of a bar that a script can name: the five recorded ones and three means.
-/

namespace BarScript

inductive Price where
  | opening | high | low | close | volume | hl2 | hlc3 | ohlc4
  deriving DecidableEq, Repr

namespace Price

def all : List Price := [opening, high, low, close, volume, hl2, hlc3, ohlc4]

/-- The name a script uses. -/
def name : Price → String
  | opening => "open"
  | high => "high"
  | low => "low"
  | close => "close"
  | volume => "volume"
  | hl2 => "hl2"
  | hlc3 => "hlc3"
  | ohlc4 => "ohlc4"

def ofName? (s : String) : Option Price := all.find? (·.name == s)

/-- The price of a bar. -/
def ofBar {α : Type} [Arith α] : Price → Bar α → α
  | opening, b => b.opening
  | high, b => b.high
  | low, b => b.low
  | close, b => b.close
  | volume, b => b.volume
  | hl2, b => b.hl2
  | hlc3, b => b.hlc3
  | ohlc4, b => b.ohlc4

theorem mem_all (p : Price) : p ∈ all := by cases p <;> decide

end Price

/-- The two times of a bar. -/
inductive Clock where
  | opens | closes
  deriving DecidableEq, Repr

namespace Clock

/-- The name a script uses. -/
def name : Clock → String
  | opens => "time"
  | closes => "time_close"

def ofName? (s : String) : Option Clock := [opens, closes].find? (·.name == s)

def ofBar {α : Type} : Clock → Bar α → Int
  | opens, b => b.openTime
  | closes, b => b.closeTime

end Clock

end BarScript
