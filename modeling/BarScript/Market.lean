import BarScript.Market.Price
import BarScript.Series
import BarScript.Failure

/-!
# Markets

A market is the list of loaded bars in the order of their opening. New bars are only appended, and
only if they pass `Bar.check` and open later than all others. A `Snapshot` is the market as a
script sees it at one bar: every series ends there.
-/

namespace BarScript

/-- The loaded bars, the oldest first. -/
structure Market (α : Type) where
  bars : Array (Bar α)
  deriving DecidableEq

namespace Market

variable {α : Type}

/-- Bars in the order of their opening; bars that open together keep their order. -/
def sorted (bars : List (Bar α)) : List (Bar α) :=
  bars.mergeSort fun a b => decide (a.openTime ≤ b.openTime)

/-- The market of some bars, which may come in any order. -/
def ofBars (bars : List (Bar α)) : Market α := ⟨(sorted bars).toArray⟩

def size (m : Market α) : Nat := m.bars.size

def isEmpty (m : Market α) : Bool := m.bars.isEmpty

variable [Arith α]

/-- The values of a price at all bars. -/
def prices (m : Market α) (p : Price) : Series α := ⟨m.bars.map p.ofBar⟩

omit [Arith α] in
/-- The times of all bars. -/
def times (m : Market α) (c : Clock) : Series Int := ⟨m.bars.map c.ofBar⟩

/-- Why a bar may not be appended, if it may not. -/
def fault? (m : Market α) (b : Bar α) : Option (BarFault α) :=
  match b.fault?, m.bars.back? with
  | some fault, _ => some fault
  | none, some newest =>
    if b.openTime ≤ newest.openTime then some (.notAfter b.openTime newest.openTime) else none
  | none, none => none

/-- Appends a bar. -/
def push (m : Market α) (b : Bar α) : Except Failure (Market α) :=
  match m.fault? b with
  | some fault => .error (.invalidBar fault.message)
  | none => .ok ⟨m.bars.push b⟩

end Market

/-- A market as it is seen at one of its bars. -/
structure Snapshot (α : Type) where
  market : Market α
  /-- The bar, counted from the oldest. -/
  bar : Nat

namespace Snapshot

variable {α β : Type}

/-- A quantity of all bars up to the one looked at; nothing when there is no such bar. -/
def view (s : Snapshot α) (f : Bar α → β) : View β :=
  if h : s.bar < s.market.bars.size then
    ⟨s.bar + 1, fun i => f s.market.bars[i]⟩
  else .empty

/-- A price up to the bar looked at. -/
def price [Arith α] (s : Snapshot α) (p : Price) : View α := s.view p.ofBar

/-- A time up to the bar looked at. -/
def clock (s : Snapshot α) (c : Clock) : View Int := s.view c.ofBar

/-- When the bar looked at opened; zero when there is no such bar. -/
def now (s : Snapshot α) : Int := (s.clock .opens).current?.getD 0

end Snapshot

end BarScript
