import BarScript.Arith

/-!
# Numbers as they are written

A `Literal` is a decimal number as a text gives it: it gets a value only when it is used, in the
arithmetic of the run. `Literal.front?` reads the number at the front of a text.
-/

namespace BarScript

/-- The number `mantissa * 10 ^ exponent`, with a sign. -/
structure Literal where
  negative : Bool
  mantissa : Nat
  exponent : Int
  deriving DecidableEq, Repr

namespace Literal

/-- The number of a count. -/
def ofNat (n : Nat) : Literal := ⟨false, n, 0⟩

def neg (l : Literal) : Literal := { l with negative := !l.negative }

/-- The nearest number. -/
def value {α : Type} [Arith α] (l : Literal) : α :=
  let x : α := Arith.ofDecimal l.mantissa l.exponent
  if l.negative then -x else x

/-- The value of decimal digits. -/
def digitsValue (ds : List Char) : Nat :=
  ds.foldl (fun n d => 10 * n + (d.toNat - '0'.toNat)) 0

/-- The exponent at the front of a text, and how many characters it has. -/
def exponentAhead : List Char → Int × Nat
  | e :: cs =>
    if e = 'e' ∨ e = 'E' then
      let (negative, sign) := match cs with
        | '-' :: _ => (true, 1)
        | '+' :: _ => (false, 1)
        | _ => (false, 0)
      let ds := (cs.drop sign).takeWhile Char.isDigit
      if ds.isEmpty then (0, 0)
      else
        let n : Int := digitsValue ds
        (if negative then -n else n, 1 + sign + ds.length)
    else (0, 0)
  | [] => (0, 0)

/-- The number at the front of a text, and how many characters it has: digits with at most one
point, and then perhaps an exponent. -/
def front? (cs : List Char) : Option (Literal × Nat) :=
  let whole := cs.takeWhile Char.isDigit
  let (fraction, point) := match cs.drop whole.length with
    | '.' :: r => (r.takeWhile Char.isDigit, 1)
    | _ => ([], 0)
  let digits := whole ++ fraction
  if digits.isEmpty then none
  else
    let size := digits.length + point
    let (e, n) := exponentAhead (cs.drop size)
    some (⟨false, digitsValue digits, e - fraction.length⟩, size + n)

end Literal

end BarScript
