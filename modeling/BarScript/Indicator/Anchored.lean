import BarScript.Indicator.Window

/-!
# Anchored means weighted by volume

A segment runs from a flagged bar, or from the first one, to the next flag. The mean price of a
segment so far, weighted by volume, is the value; the bands lie at a multiple of the deviation of
its prices. A bar with an unavailable price or volume has no value and is left out.
-/

namespace BarScript

/-- The running sums of a segment. -/
structure Segment (α : Type) where
  volume : α
  volumePrice : α
  count : Nat
  sum : α
  sumOfSquares : α
  deriving DecidableEq

namespace Segment

variable {α : Type} [Arith α]

def empty : Segment α := ⟨0, 0, 0, 0, 0⟩

def add (s : Segment α) (price volume : α) : Segment α :=
  ⟨s.volume + volume, s.volumePrice + price * volume, s.count + 1, s.sum + price,
    s.sumOfSquares + price * price⟩

/-- The mean price weighted by volume, unavailable without volume. -/
def mean (s : Segment α) : α := if s.volume == 0 then Arith.nan else s.volumePrice / s.volume

/-- The standard deviation of the prices, not weighted. -/
def deviation (s : Segment α) : α :=
  let n : α := Arith.ofCount s.count
  let mean := s.sum / n
  Arith.sqrt (Arith.max (s.sumOfSquares / n - mean * mean) 0)

/-- The segment at every bar; none where a number is unavailable. -/
def trace (s : Segment α) : List (Bool × α × α) → List (Option (Segment α))
  | [] => []
  | (flag, price, volume) :: xs =>
    let s := if flag then empty else s
    if Arith.isNaN price || Arith.isNaN volume then none :: trace s xs
    else
      let s := s.add price volume
      some s :: trace s xs

end Segment

/-- Flags for `n` bars, the last flag belonging to the newest; missing flags are down. -/
def alignedFlags (n : Nat) (flags : List Bool) : List Bool :=
  List.replicate (n - flags.length) false ++ newest n flags

variable {α : Type} [Arith α]

/-- The segments of two series that end at the same bar. -/
def segments (xs volume : List α) (anchor : Option (List Bool)) : List (Option (Segment α)) :=
  let (xs, volume) := aligned xs volume
  let flags := alignedFlags xs.length (anchor.getD [])
  Segment.trace Segment.empty (List.zip flags (List.zip xs volume))

/-- A function of the segment at every bar. -/
def ofSegments (f : Segment α → α) (xs : List (Option (Segment α))) : List α :=
  xs.map fun s => (s.map f).getD Arith.nan

/-- The mean price weighted by volume since the last anchor. -/
def vwap (xs volume : List α) (anchor : Option (List Bool)) : List α :=
  ofSegments Segment.mean (segments xs volume anchor)

structure BandedMean (α : Type) where
  mean : List α
  upper : List α
  lower : List α

/-- The mean and the bands at `multiple` deviations. -/
def vwapBands (xs volume : List α) (anchor : Option (List Bool)) (multiple : α) : BandedMean α :=
  let s := segments xs volume anchor
  ⟨ofSegments Segment.mean s,
    ofSegments (fun s => s.mean + multiple * s.deviation) s,
    ofSegments (fun s => s.mean - multiple * s.deviation) s⟩

end BarScript
