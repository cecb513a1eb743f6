import BarScript.Market.Bar

/-!
# Close times from opening times

A series that gives opening times only lets every bar last until the next one opens. The newest bar
lasts as long as the distance from the bar before it, and a bar that is alone, or that opens together
with its neighbour, closes the moment it opens.
-/

namespace BarScript

variable {α : Type}

/-- A bar that lasts for a number of milliseconds. -/
def Bar.lasting (b : Bar α) (millis : Int) : Bar α :=
  { b with closeTime := b.openTime + max (millis - 1) 0 }

/-- Sets the close times of bars that follow one which opened at `before`. -/
def closeTimesAfter (before : Option Int) : List (Bar α) → List (Bar α)
  | [] => []
  | [b] => [b.lasting ((before.map (b.openTime - ·)).getD 1)]
  | b :: c :: rest =>
    b.lasting (c.openTime - b.openTime) :: closeTimesAfter (some b.openTime) (c :: rest)

/-- Sets the close times of bars in the order of their opening. -/
def deriveCloseTimes (bars : List (Bar α)) : List (Bar α) := closeTimesAfter none bars

end BarScript
