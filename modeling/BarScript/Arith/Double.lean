import BarScript.Arith
import BarScript.Decimal.Notation

/-!
# Double precision

`Float` as the arithmetic of a run. The field operations, the comparisons and the square root are
those of the type; rounding to integers and the remainder are computed here exactly, and only
`exp`, `log` and `pow` are left to the system's library.
-/

namespace BarScript

namespace Double

/-- From here on every float is an integer. -/
def integral : Float := 4503599627370496

/-- The sign of a float on a magnitude. -/
def withSignOf (x magnitude : Float) : Float :=
  if x.toBits ≥ 0x8000000000000000 then -magnitude else magnitude

/-- The integer part of a magnitude below `integral`. -/
def whole (magnitude : Float) : Float := magnitude.toUInt64.toFloat

/-- Applies a rounding of magnitudes, keeping the sign; large numbers, infinities and NaN stay. -/
def onMagnitude (f : Float → Float) (x : Float) : Float :=
  if x.abs < integral then withSignOf x (f x.abs) else x

/-- Cuts the fraction off. -/
def cut : Float → Float := onMagnitude whole

/-- The nearest integer, a half going away from zero. -/
def round : Float → Float :=
  onMagnitude fun m => if m - whole m < 0.5 then whole m else whole m + 1

/-- The greatest integer that is not above. -/
def floor (x : Float) : Float := if x < cut x then cut x - 1 else cut x

/-- The least integer that is not below. -/
def ceil (x : Float) : Float := -floor (-x)

/-- The integer part, clamped; zero for NaN. -/
def toIntClamped (low high : Int) (x : Float) : Int :=
  match Binary.ofFloat x with
  | .nan => 0
  | .infinite negative => if negative then low else high
  | .finite negative m e =>
    let magnitude : Nat :=
      if e ≥ 0 then m * twoTo e.toNat else m / twoTo (-e).toNat
    let n : Int := if negative then -magnitude else magnitude
    Max.max low (Min.min high n)

/-- The float `mantissa * 2 ^ exponent`, exact when it has at most 53 significant bits. -/
def ofBinary (mantissa : Nat) (exponent : Int) : Float :=
  if exponent ≥ 0 then Float.ofNat (mantissa * twoTo exponent.toNat)
  else
    -- in two steps, since the whole power may be out of range
    let k := (-exponent).toNat
    Float.ofNat mantissa / Float.ofNat (twoTo (k / 2)) / Float.ofNat (twoTo (k - k / 2))

/-- The remainder of the quotient cut toward zero, exact. -/
def rem (x y : Float) : Float :=
  match Binary.ofFloat x, Binary.ofFloat y with
  | .finite _ mx ex, .finite _ my ey =>
    if my = 0 then 0.0 / 0.0
    else
      let e := Min.min ex ey
      let a := mx * twoTo (ex - e).toNat
      let b := my * twoTo (ey - e).toNat
      withSignOf x (ofBinary (a % b) e)
  | .finite .., .infinite _ => x
  | _, _ => 0.0 / 0.0

/-- The natural number nearest to a quotient; of two equally near ones the even one. -/
def nearestEven (num den : Nat) : Nat :=
  let q := num / den
  let twice := 2 * (num % den)
  if twice < den ∨ (twice = den ∧ q % 2 = 0) then q else q + 1

/-- A quotient divided by `2 ^ unit`, as a numerator and a denominator. -/
def inUnits (num den : Nat) (unit : Int) : Nat × Nat :=
  if unit ≥ 0 then (num, den * twoTo unit.toNat) else (num * twoTo (-unit).toNat, den)

/-- The nearest float to a positive quotient. Floats near it are the multiples of a power of two:
the one that leaves 53 bits, but no smaller than the unit of the smallest float. -/
def ofQuotient (num den : Nat) : Float :=
  let guess : Int := (num.log2 : Int) - den.log2
  let (n, d) := inUnits num den guess
  let log := if n < d then guess - 1 else guess
  let unit := Max.max (log - 52) (-1074)
  let (n, d) := inUnits num den unit
  ofBinary (nearestEven n d) unit

/-- The nearest float to `mantissa * 10 ^ exponent`; far outside the range of floats the answer is
known without computing the power. -/
def ofDecimal (mantissa : Nat) (exponent : Int) : Float :=
  let size : Int := (Nat.toDigits 10 mantissa).length + exponent
  if mantissa = 0 ∨ size < -330 then 0
  else if size > 310 then 1 / 0
  else if exponent ≥ 0 then ofQuotient (mantissa * tenTo exponent.toNat) 1
  else ofQuotient mantissa (tenTo (-exponent).toNat)

/-- The place of a float in the total order: negative numbers backwards below the positive ones. -/
def sortKey (x : Float) : Int :=
  let bits := x.toBits.toNat
  if bits ≥ twoTo 63 then (twoTo 63 : Int) - 1 - bits else bits

end Double

instance : Arith Float where
  decLt := inferInstance
  decLe := inferInstance
  nan := 0.0 / 0.0
  ofInt := Float.ofInt
  ofDecimal := Double.ofDecimal
  isNaN := Float.isNaN
  isFinite := Float.isFinite
  abs := Float.abs
  sqrt := Float.sqrt
  exp := Float.exp
  log := Float.log
  pow := Float.pow
  rem := Double.rem
  floor := Double.floor
  ceil := Double.ceil
  round := Double.round
  toIntClamped := Double.toIntClamped
  sortsBefore x y := Double.sortKey x ≤ Double.sortKey y
  lowest := Float.ofBits 0xFFEFFFFFFFFFFFFF
  greatest := Float.ofBits 0x7FEFFFFFFFFFFFFF
  text := plainFloat

end BarScript
