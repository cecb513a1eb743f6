import BarScript.Arith.Powers

/-!
# Binary numbers as integers

A `Float` is a sign and an integer times a power of two, or an infinity, or no number. Everything
exact about floats in this library is computed on that form (`Binary.ofFloat`).
-/

namespace BarScript

/-- What the 64 bits of a float say. -/
inductive Binary where
  | nan
  | infinite (negative : Bool)
  /-- The number `mantissa * 2 ^ exponent`, with a sign. -/
  | finite (negative : Bool) (mantissa : Nat) (exponent : Int)
  deriving DecidableEq, Repr

namespace Binary

/-- The fields of a float: sign bit, eleven exponent bits, fifty-two fraction bits. -/
def ofFloat (x : Float) : Binary :=
  let bits : Nat := x.toBits.toNat
  let negative := bits / twoTo 63 == 1
  let power : Nat := bits / twoTo 52 % twoTo 11
  let fraction : Nat := bits % twoTo 52
  if power = 2047 then
    if fraction = 0 then .infinite negative else .nan
  else if power = 0 then .finite negative fraction (-1074)
  else .finite negative (twoTo 52 + fraction) (power - 1075)

end Binary

end BarScript
