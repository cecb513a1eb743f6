import BarScript.Arith.Powers

/-!
# The numbers of a run

`Arith α` lists what the indicators, the evaluator and the engine ask of their numbers: the field
operations, a comparison, a value that stands for "not available", rounding to integers, and a
text. A run uses `Float` (`Arith/Double.lean`); a proof about exact arithmetic picks an exact type.
Nothing else of the library looks inside a number.
-/

namespace BarScript

/-- Numbers with a distinguished unavailable value `nan`. -/
class Arith (α : Type) extends Add α, Sub α, Mul α, Div α, Neg α, BEq α, LT α, LE α where
  /-- Decides `<`; an unavailable number is below nothing and above nothing. -/
  decLt : DecidableLT α
  /-- Decides `≤`, with the same rule for unavailable numbers. -/
  decLe : DecidableLE α
  /-- The unavailable number. -/
  nan : α
  /-- The nearest number to an integer. -/
  ofInt : Int → α
  /-- The nearest number to `mantissa * 10 ^ exponent`. -/
  ofDecimal : Nat → Int → α
  isNaN : α → Bool
  /-- Neither unavailable nor infinite. -/
  isFinite : α → Bool
  abs : α → α
  sqrt : α → α
  exp : α → α
  log : α → α
  pow : α → α → α
  /-- The remainder of the quotient cut toward zero; it has the sign of the dividend. -/
  rem : α → α → α
  floor : α → α
  ceil : α → α
  /-- The nearest integer, a half going away from zero. -/
  round : α → α
  /-- The integer part, clamped to the two bounds; zero for an unavailable number. -/
  toIntClamped : Int → Int → α → Int
  /-- The total order that sorting uses. -/
  sortsBefore : α → α → Bool
  /-- The number nothing finite is below. -/
  lowest : α
  /-- The number nothing finite is above. -/
  greatest : α
  /-- How a number is written inside a text. -/
  text : α → String

variable {α : Type} [Arith α]

namespace Arith

instance decidableLT : DecidableLT α := decLt

instance decidableLE : DecidableLE α := decLe

instance (priority := low) numeral (n : Nat) : OfNat α n := ⟨ofInt n⟩

/-- The number of a count. -/
def ofCount (n : Nat) : α := ofInt n

/-- The larger of two numbers, the second one of equals; an unavailable one is ignored. -/
def max (a b : α) : α := if isNaN a then b else if a ≤ b then b else a

/-- The smaller of two numbers, the second one of equals; an unavailable one is ignored. -/
def min (a b : α) : α := if isNaN a then b else if b ≤ a then b else a

/-- The sum from left to right, from negative zero, which is neutral for addition. -/
def sum (xs : List α) : α := xs.foldl (· + ·) (-0)

/-- Truth of a number: it is available and not zero. -/
def truth (a : α) : Bool := !isNaN a && !(a == 0)

/-- The number of a truth value. -/
def ofBool (b : Bool) : α := if b then 1 else 0

/-- The largest count there is. -/
def maxCount : Nat := twoTo 64 - 1

/-- Addition of counts, which stops at `maxCount`. -/
def addCount (a b : Nat) : Nat := Nat.min (a + b) maxCount

/-- Multiplication of counts, which stops at `maxCount`. -/
def mulCount (a b : Nat) : Nat := Nat.min (a * b) maxCount

/-- The count of a number: its integer part, from zero to `maxCount`. -/
def toCount (a : α) : Nat := (toIntClamped 0 maxCount a).toNat

/-- `power acc base n` is `acc * base ^ n` by repeated squaring, lowest bit first. -/
def power (acc base : α) (n : Nat) : α :=
  let acc := if n % 2 = 1 then acc * base else acc
  if n / 2 = 0 then acc else power acc (base * base) (n / 2)
termination_by n

/-- Ten to an integer power; a negative power is the reciprocal of the positive one. -/
def powerOfTen (n : Int) : α :=
  let p : α := power 1 10 n.natAbs
  if n < 0 then 1 / p else p

end Arith

end BarScript
