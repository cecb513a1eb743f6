import BarScript.Arith

/-!
# Colors

A color is a text: a name, `#rrggbb`, or a list of channels. `Color.rgb` writes channels with an
optional opacity; `Color.withAlpha` adds an opacity to a color and turns `#rrggbb` into channels.
-/

namespace BarScript.Color

def names : List String :=
  ["aqua", "black", "blue", "fuchsia", "gray", "green", "lime", "maroon", "navy", "olive",
    "orange", "purple", "red", "silver", "teal", "white", "yellow"]

/-- The value of a color name is the name. -/
def named? (name : String) : Option String := names.find? (· == name)

variable {α : Type} [Arith α]

/-- The text of color channels. -/
def rgb (r g b : α) (alpha : Option α) : String :=
  let (r, g, b) := (Arith.text r, Arith.text g, Arith.text b)
  match alpha.map Arith.text with
  | some a => s!"rgba({r}, {g}, {b}, {a})"
  | none => s!"rgb({r}, {g}, {b})"

/-- The value of a hexadecimal digit. -/
def hexDigit? (c : Char) : Option Nat :=
  if '0' ≤ c ∧ c ≤ '9' then some (c.toNat - '0'.toNat)
  else if 'a' ≤ c ∧ c ≤ 'f' then some (c.toNat - 'a'.toNat + 10)
  else if 'A' ≤ c ∧ c ≤ 'F' then some (c.toNat - 'A'.toNat + 10)
  else none

/-- The value of two characters read as a hexadecimal number; a plus sign may stand first. -/
def channel? (c d : Char) : Option Nat :=
  if c = '+' then hexDigit? d
  else do
    let high ← hexDigit? c
    let low ← hexDigit? d
    return 16 * high + low

/-- The channels of a color that starts with `#` and three hexadecimal numbers. -/
def channels? : List Char → Option (Nat × Nat × Nat)
  | '#' :: r₁ :: r₂ :: g₁ :: g₂ :: b₁ :: b₂ :: _ => do
    let r ← channel? r₁ r₂
    let g ← channel? g₁ g₂
    let b ← channel? b₁ b₂
    return (r, g, b)
  | _ => none

/-- A color with an opacity, if one is given. -/
def withAlpha (color : String) (alpha : Option α) : String :=
  match channels? color.toList with
  | some (r, g, b) => rgb (Arith.ofCount r) (Arith.ofCount g) (Arith.ofCount b) alpha
  | none =>
    match alpha.map Arith.text with
    | some a => s!"rgba({color}, {a})"
    | none => color

end BarScript.Color
