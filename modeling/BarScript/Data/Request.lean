import BarScript.Calendar.Instant
import BarScript.Market.Bar

/-!
# Requests for bars

A request names a series of bars, by ticker and timeframe, and says which of its bars are wanted:
those that open in a span of time, and of those the most recent ones.
-/

namespace BarScript

structure Request where
  ticker : String
  timeframe : String
  /-- How many bars at most. -/
  limit : Option Nat
  /-- The first and the last instant at which a bar may open. -/
  first : Option Instant
  last : Option Instant
  deriving DecidableEq, Repr

namespace Request

/-- A bar that opens at `openTime` lies in the span. -/
def contains (r : Request) (openTime : Int) : Bool :=
  r.first.all (fun t => decide (t.millis ≤ openTime)) &&
    r.last.all (fun t => decide (openTime ≤ t.millis))

/-- The last `n` elements, or all if there are fewer. -/
def lastOnes {β : Type} (n : Nat) (xs : List β) : List β := xs.drop (xs.length - n)

/-- The wanted ones of some bars in the order of their opening. -/
def select {α : Type} (r : Request) (bars : List (Bar α)) : List (Bar α) :=
  let bars := bars.filter fun b => r.contains b.openTime
  match r.limit with
  | some n => lastOnes n bars
  | none => bars

end Request

/-- The opening times of the first and the last bar of a series, and how many bars it has. -/
structure Extent where
  first : Int
  last : Int
  count : Nat
  deriving DecidableEq, Repr

/-- The extent of some bars in the order of their opening, unless there are none. -/
def Extent.ofBars? {α : Type} (bars : List (Bar α)) : Option Extent :=
  match bars.head?, bars.getLast? with
  | some first, some last => some ⟨first.openTime, last.openTime, bars.length⟩
  | _, _ => none

end BarScript
