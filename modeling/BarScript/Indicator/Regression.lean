import BarScript.Indicator.Window

/-!
# Linear regression

The least-squares line through a trailing window, read `offset` bars before the newest. The bars of
the window have the abscissas 0, 1, 2, and so on, the oldest first.
-/

namespace BarScript

variable {α : Type} [Arith α]

/-- The sums that determine the line. -/
structure LineSums (α : Type) where
  x : α
  y : α
  xy : α
  xx : α

/-- The sums over a window, from left to right. -/
def lineSums (w : List α) : LineSums α :=
  w.zipIdx.foldl (fun s (y, j) =>
    let x : α := Arith.ofCount j
    ⟨s.x + x, s.y + y, s.xy + x * y, s.xx + x * x⟩) ⟨0, 0, 0, 0⟩

/-- The value of the line `offset` bars before the newest. One value is its own line. -/
def windowLine (w : List α) (offset : Int) : α :=
  match w with
  | [v] => v
  | _ =>
    let n : α := Arith.ofCount w.length
    let s := lineSums w
    let denominator := n * s.xx - s.x * s.x
    let slope := (n * s.xy - s.x * s.y) / denominator
    let intercept := (s.y - slope * s.x) / n
    intercept + slope * (n - 1 - Arith.ofInt offset)

def linreg (xs : List α) (length : Nat) (offset : Int) : List α :=
  windowed xs length fun w => windowLine w offset

end BarScript
