import BarScript.Decimal.Shortest

/-!
# Decimals as text

`Decimal.plain` writes a decimal in positional notation, never with an exponent and without a
trailing point. `Float` numbers are written so wherever they stand inside a text.
-/

namespace BarScript

namespace Decimal

/-- `n` zeros. -/
private def zeros (n : Nat) : List Char := List.replicate n '0'

/-- Positional notation. -/
def plain (d : Decimal) : String :=
  let ds := Nat.toDigits 10 d.digits
  if d.exponent ≥ 0 then String.ofList (ds ++ if d.digits = 0 then [] else zeros d.exponent.toNat)
  else
    let places := (-d.exponent).toNat
    let ds := zeros (places + 1 - ds.length) ++ ds
    String.ofList (ds.take (ds.length - places) ++ '.' :: ds.drop (ds.length - places))

end Decimal

/-- A float in positional notation with the fewest digits that read back. -/
def plainFloat (x : Float) : String :=
  match Binary.ofFloat x with
  | .nan => "NaN"
  | .infinite negative => if negative then "-inf" else "inf"
  | .finite negative m e =>
    let body := (Decimal.shortest m e).plain
    if negative then "-" ++ body else body

end BarScript
