import BarScript.Indicator.Smoothed

/-!
# True ranges

The true range of a bar is its range extended to the close before it. The average true range is
Wilder's average of it; a bar with an unavailable price is passed over.
-/

namespace BarScript

/-- What the true range needs of a bar. -/
structure Reach (α : Type) where
  high : α
  low : α
  close : α
  deriving DecidableEq, Repr

namespace Reach

variable {α : Type} [Arith α]

def hasNaN (r : Reach α) : Bool := Arith.isNaN r.high || Arith.isNaN r.low || Arith.isNaN r.close

/-- The range extended to the close before. Without one it is the plain range if `handleMissing`,
and unavailable otherwise. -/
def trueRange (r : Reach α) (previousClose : Option α) (handleMissing : Bool) : α :=
  let range := r.high - r.low
  match previousClose.filter (!Arith.isNaN ·) with
  | some c => Arith.max (Arith.max range (Arith.abs (r.high - c))) (Arith.abs (r.low - c))
  | none => if handleMissing then range else Arith.nan

/-- The bars of three equally long lists; longer ones are cut at the newer end. -/
def zip (high low close : List α) : List (Reach α) :=
  List.zipWith (fun hl c => ⟨hl.1, hl.2, c⟩) (List.zip high low) close

omit [Arith α] in
theorem zip_map {ι : Type} (high low close : ι → α) (xs : List ι) :
    zip (xs.map high) (xs.map low) (xs.map close) = xs.map fun x => ⟨high x, low x, close x⟩ := by
  induction xs with
  | nil => rfl
  | cons x xs ih => exact congrArg (_ :: ·) ih

end Reach

/-- An average true range on its way. -/
structure RangeState (α : Type) where
  average : SmoothedState α
  previousClose : Option α
  deriving DecidableEq

namespace RangeState

variable {α : Type} [Arith α]

def fresh (period : Nat) : RangeState α := ⟨.rma period, none⟩

def next (s : RangeState α) (r : Reach α) : α × RangeState α :=
  if r.hasNaN then (Arith.nan, s)
  else
    let (value, average) := s.average.next (r.trueRange s.previousClose true)
    (value, ⟨average, some r.close⟩)

instance : Streaming (RangeState α) (Reach α) α := ⟨next⟩

end RangeState

variable {α : Type} [Arith α]

/-- The average true range at every position. -/
def atr (high low close : List α) (period : Nat) : List α :=
  replay (RangeState.fresh period : RangeState α) (Reach.zip high low close)

end BarScript
