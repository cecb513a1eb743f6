import Mathlib
import BarScript.Arith

/-!
# Exact arithmetic

`Exact` is the arithmetic of a run without rounding: the real numbers, two infinities, and an
unavailable number that every operation passes on. Comparisons with the unavailable number are
false, and an operation that has no value (an infinity less itself, a quotient of zeros, the root of
a negative number) is unavailable. On `Exact.fin` every operation is the one of the real numbers.
-/

namespace BarScript

/-- A number without rounding. -/
inductive Exact where
  | fin (x : ℝ)
  | inf (negative : Bool)
  | nan

namespace Exact

open Classical in
/-- An infinity of a sign, turned by a number that is not zero. -/
noncomputable def scaled (negative : Bool) (x : ℝ) : Exact :=
  if x = 0 then nan else inf (negative != decide (x < 0))

def neg : Exact → Exact
  | fin x => fin (-x)
  | inf n => inf !n
  | nan => nan

noncomputable def add : Exact → Exact → Exact
  | fin x, fin y => fin (x + y)
  | inf m, inf n => if m = n then inf m else nan
  | inf n, fin _ => inf n
  | fin _, inf n => inf n
  | nan, _ => nan
  | _, nan => nan

noncomputable def mul : Exact → Exact → Exact
  | fin x, fin y => fin (x * y)
  | inf m, inf n => inf (m != n)
  | inf n, fin x => scaled n x
  | fin x, inf n => scaled n x
  | nan, _ => nan
  | _, nan => nan

open Classical in
noncomputable def div : Exact → Exact → Exact
  | fin x, fin y => if y = 0 then scaled false x else fin (x / y)
  | inf n, fin x => inf (n != decide (x < 0))
  | fin _, inf _ => fin 0
  | inf _, inf _ => nan
  | nan, _ => nan
  | _, nan => nan

/-- The order of the numbers that are available. -/
def Le : Exact → Exact → Prop
  | nan, _ => False
  | _, nan => False
  | fin x, fin y => x ≤ y
  | inf m, inf n => m = true ∨ n = false
  | inf m, fin _ => m = true
  | fin _, inf n => n = false

def Lt : Exact → Exact → Prop
  | nan, _ => False
  | _, nan => False
  | fin x, fin y => x < y
  | inf m, inf n => m = true ∧ n = false
  | inf m, fin _ => m = true
  | fin _, inf n => n = false

open Classical in
/-- Equality, which the unavailable number has with nothing. -/
noncomputable def same : Exact → Exact → Bool
  | fin x, fin y => decide (x = y)
  | inf m, inf n => m == n
  | _, _ => false

def unavailable : Exact → Bool
  | nan => true
  | _ => false

def finite : Exact → Bool
  | fin _ => true
  | _ => false

/-- A rounding to integers, which infinities pass. -/
def rounded (f : ℝ → ℤ) : Exact → Exact
  | fin x => fin (f x)
  | x => x

/-- The integer part. -/
noncomputable def cut (x : ℝ) : ℤ := if 0 ≤ x then ⌊x⌋ else ⌈x⌉

/-- The nearest integer, a half going away from zero. -/
noncomputable def nearest (x : ℝ) : ℤ := if 0 ≤ x then ⌊x + 1 / 2⌋ else ⌈x - 1 / 2⌉

noncomputable def sqrt : Exact → Exact
  | fin x => if x < 0 then nan else fin (Real.sqrt x)
  | inf n => if n then nan else inf false
  | nan => nan

noncomputable def exp : Exact → Exact
  | fin x => fin (Real.exp x)
  | inf n => if n then fin 0 else inf false
  | nan => nan

open Classical in
noncomputable def log : Exact → Exact
  | fin x => if x < 0 then nan else if x = 0 then inf true else fin (Real.log x)
  | inf n => if n then nan else inf false
  | nan => nan

open Classical in
/-- Powers of finite numbers: a negative one has powers with integer exponents, and zero has none with
a negative exponent. Powers of infinities are unavailable. -/
noncomputable def pow : Exact → Exact → Exact
  | fin x, fin y =>
    if x < 0 ∧ (cut y : ℝ) ≠ y ∨ x = 0 ∧ y < 0 then nan
    else if (cut y : ℝ) = y then fin (x ^ cut y)
    else fin (x ^ y)
  | _, _ => nan

open Classical in
/-- The remainder of the quotient cut toward zero. -/
noncomputable def rem : Exact → Exact → Exact
  | fin x, fin y => if y = 0 then nan else fin (x - y * cut (x / y))
  | fin x, inf _ => fin x
  | _, _ => nan

/-- The integer part, clamped to two bounds. -/
noncomputable def toIntClamped (low high : Int) : Exact → Int
  | fin x => Max.max low (Min.min high (cut x))
  | inf n => if n then low else high
  | nan => 0

/-- The order of sorting, with the unavailable number above all others. -/
noncomputable def sortsBefore (x y : Exact) : Bool :=
  haveI := Classical.propDecidable (x.Le y)
  y.unavailable || decide (x.Le y)

open Classical in
/-- The integer part in digits, followed by dots if it is not all of the number. -/
noncomputable def text : Exact → String
  | fin x => if (cut x : ℝ) = x then toString (cut x) else toString (cut x) ++ "…"
  | inf n => if n then "-inf" else "inf"
  | nan => "NaN"

end Exact

noncomputable instance exactArith : Arith Exact where
  add := Exact.add
  sub x y := x.add y.neg
  mul := Exact.mul
  div := Exact.div
  neg := Exact.neg
  beq := Exact.same
  lt := Exact.Lt
  le := Exact.Le
  decLt _ _ := Classical.propDecidable _
  decLe _ _ := Classical.propDecidable _
  nan := .nan
  ofInt n := .fin n
  ofDecimal m e := .fin (m * 10 ^ e)
  isNaN := Exact.unavailable
  isFinite := Exact.finite
  abs
    | .fin x => .fin |x|
    | .inf _ => .inf false
    | .nan => .nan
  sqrt := Exact.sqrt
  exp := Exact.exp
  log := Exact.log
  pow := Exact.pow
  rem := Exact.rem
  floor := Exact.rounded Int.floor
  ceil := Exact.rounded Int.ceil
  round := Exact.rounded Exact.nearest
  toIntClamped := Exact.toIntClamped
  sortsBefore := Exact.sortsBefore
  lowest := .inf true
  greatest := .inf false
  text := Exact.text

namespace Exact

/-! ## On finite numbers -/

variable (x y : ℝ)

@[simp] theorem fin_add : fin x + fin y = fin (x + y) := rfl

@[simp] theorem fin_sub : fin x - fin y = fin (x - y) := congrArg fin (sub_eq_add_neg x y).symm

@[simp] theorem fin_mul : fin x * fin y = fin (x * y) := rfl

theorem fin_div {y : ℝ} (h : y ≠ 0) : fin x / fin y = fin (x / y) := if_neg h

@[simp] theorem neg_fin : -fin x = fin (-x) := rfl

@[simp] theorem fin_le : fin x ≤ fin y ↔ x ≤ y := Iff.rfl

@[simp] theorem fin_lt : fin x < fin y ↔ x < y := Iff.rfl

@[simp] theorem fin_beq : (fin x == fin y) = true ↔ x = y := decide_eq_true_iff

@[simp] theorem isNaN_fin : Arith.isNaN (fin x) = false := rfl

@[simp] theorem isFinite_fin : Arith.isFinite (fin x) = true := rfl

@[simp] theorem abs_fin : Arith.abs (fin x) = fin |x| := rfl

theorem sqrt_fin {x : ℝ} (h : 0 ≤ x) : Arith.sqrt (fin x) = fin (Real.sqrt x) :=
  if_neg (not_lt.2 h)

@[simp] theorem numeral_eq (n : Nat) : (OfNat.ofNat n : Exact) = fin n :=
  congrArg fin (Int.cast_natCast n)

@[simp] theorem ofCount_eq (n : Nat) : (Arith.ofCount n : Exact) = fin n :=
  congrArg fin (Int.cast_natCast n)

@[simp] theorem ofInt_eq (n : Int) : (Arith.ofInt n : Exact) = fin n := rfl

@[simp] theorem max_fin : Arith.max (fin x) (fin y) = fin (max x y) := by
  rw [Arith.max, isNaN_fin, if_neg Bool.false_ne_true, max_def]
  split
  · rw [if_pos ‹_›]
  · rw [if_neg ‹_›]

@[simp] theorem min_fin : Arith.min (fin x) (fin y) = fin (min x y) := by
  rw [Arith.min, isNaN_fin, if_neg Bool.false_ne_true, min_comm, min_def]
  split
  · rw [if_pos ‹_›]
  · rw [if_neg ‹_›]

theorem foldl_add (xs : List ℝ) (acc : ℝ) :
    (xs.map fin).foldl (· + ·) (fin acc) = fin (acc + xs.sum) := by
  induction xs generalizing acc with
  | nil => simp
  | cons x xs ih => rw [List.map_cons, List.foldl_cons, fin_add, ih, List.sum_cons, add_assoc]

@[simp] theorem sum_fin (xs : List ℝ) : Arith.sum (xs.map fin) = fin xs.sum := by
  rw [Arith.sum, numeral_eq, neg_fin, foldl_add]
  simp

/-! ## With the unavailable number -/

/-- A number, or the unavailable one where there is none. -/
def ofOption : Option ℝ → Exact
  | some x => fin x
  | none => nan

/-- A series of numbers with gaps. -/
def series (xs : List (Option ℝ)) : List Exact := xs.map ofOption

theorem series_getElem? (xs : List (Option ℝ)) (i : Nat) :
    (series xs)[i]? = xs[i]?.map ofOption := List.getElem?_map

@[simp] theorem length_series (xs : List (Option ℝ)) : (series xs).length = xs.length :=
  List.length_map ofOption

@[simp] theorem nan_eq : (Arith.nan : Exact) = nan := rfl

@[simp] theorem isNaN_nan : Arith.isNaN nan = true := rfl

@[simp] theorem nan_add (a : Exact) : nan + a = nan := by cases a <;> rfl

@[simp] theorem add_nan (a : Exact) : a + nan = nan := by cases a <;> rfl

@[simp] theorem nan_sub (a : Exact) : nan - a = nan := by cases a <;> rfl

@[simp] theorem sub_nan (a : Exact) : a - nan = nan := by cases a <;> rfl

@[simp] theorem nan_mul (a : Exact) : nan * a = nan := by cases a <;> rfl

@[simp] theorem mul_nan (a : Exact) : a * nan = nan := by cases a <;> rfl

theorem isNaN_iff (a : Exact) : Arith.isNaN a = true ↔ a = nan := by
  cases a <;> simp [Arith.isNaN, unavailable]

theorem available_iff (a : Exact) : Arith.isNaN a = false ↔ a ≠ nan := by
  rw [← Bool.not_eq_true, isNaN_iff]

/-! ## The order -/

/-- The place of an available number among the extended reals. -/
noncomputable def place : Exact → EReal
  | fin x => x
  | inf n => if n then ⊥ else ⊤
  | nan => 0

variable {a b : Exact}

theorem le_iff_place (ha : a ≠ nan) (hb : b ≠ nan) : a ≤ b ↔ a.place ≤ b.place := by
  change a.Le b ↔ _
  rcases a with x | m | _ <;> rcases b with y | n | _ <;> simp_all [Le, place]
  · cases n <;> simp
  · cases m <;> simp
  · cases m <;> cases n <;> simp

theorem lt_iff_place (ha : a ≠ nan) (hb : b ≠ nan) : a < b ↔ a.place < b.place := by
  change a.Lt b ↔ _
  rcases a with x | m | _ <;> rcases b with y | n | _ <;> simp_all [Lt, place]
  · cases n <;> simp
  · cases m <;> simp
  · cases m <;> cases n <;> simp

theorem le_of_not_lt (ha : a ≠ nan) (hb : b ≠ nan) (h : ¬ a < b) : b ≤ a := by
  rw [lt_iff_place ha hb, not_lt] at h
  exact (le_iff_place hb ha).2 h

theorem ne_nan_of_le (h : a ≤ b) : a ≠ nan ∧ b ≠ nan := by
  change a.Le b at h
  constructor <;> rintro rfl
  · exact h
  · cases a <;> exact h

theorem le_refl (ha : a ≠ nan) : a ≤ a := (le_iff_place ha ha).2 le_rfl

theorem le_trans {c : Exact} (hab : a ≤ b) (hbc : b ≤ c) : a ≤ c := by
  obtain ⟨ha, hb⟩ := ne_nan_of_le hab
  have hc := (ne_nan_of_le hbc).2
  rw [le_iff_place] at hab hbc ⊢
  all_goals first | assumption | exact hab.trans hbc

/-! ## Numbers that are not negative -/

/-- At least zero, or unavailable. -/
def Nonneg : Exact → Prop
  | fin x => 0 ≤ x
  | inf n => n = false
  | nan => True

theorem nonneg_of_le (h : (0 : Exact) ≤ a) : a.Nonneg := by
  rw [numeral_eq, Nat.cast_zero] at h
  change (fin 0).Le a at h
  rcases a with x | n | _
  · exact h
  · exact h
  · exact True.intro

theorem Nonneg.add (ha : a.Nonneg) (hb : b.Nonneg) : (a + b).Nonneg := by
  change (Exact.add a b).Nonneg
  rcases a with x | m | _ <;> rcases b with y | n | _ <;> simp_all [Exact.add, Nonneg]
  exact add_nonneg ha hb

theorem scaled_nonneg {x : ℝ} (hx : 0 ≤ x) : (scaled false x).Nonneg := by
  rw [scaled]
  split
  · exact True.intro
  · simp [Nonneg, hx]

theorem Nonneg.mul (ha : a.Nonneg) (hb : b.Nonneg) : (a * b).Nonneg := by
  change (Exact.mul a b).Nonneg
  rcases a with x | m | _ <;> rcases b with y | n | _ <;> simp_all [Exact.mul, Nonneg]
  · exact mul_nonneg ha hb
  · exact scaled_nonneg ha
  · exact scaled_nonneg hb

theorem Nonneg.div (ha : a.Nonneg) {y : ℝ} (hy : 0 ≤ y) : (a / fin y).Nonneg := by
  change (Exact.div a (fin y)).Nonneg
  rcases a with x | m | _
  · rw [Exact.div]
    split
    · exact scaled_nonneg ha
    · exact div_nonneg ha hy
  · simp_all [Exact.div, Nonneg]
  · exact True.intro

theorem Nonneg.max (ha : a.Nonneg) (hb : b.Nonneg) : (Arith.max a b).Nonneg := by
  rw [Arith.max]
  split_ifs <;> assumption

theorem nonneg_abs (a : Exact) : (Arith.abs a).Nonneg := by
  rcases a with x | n | _
  · exact abs_nonneg x
  · rfl
  · exact True.intro

theorem nonneg_sub (h : a ≤ b) : (b - a).Nonneg := by
  change (Exact.add b (neg a)).Nonneg
  change a.Le b at h
  rcases a with x | m | _ <;> rcases b with y | n | _ <;> simp_all [Exact.add, Nonneg, neg, Le]
  cases m <;> cases n <;> simp_all

/-- A middle less a distance is at most the middle plus the distance, if both have a value. -/
theorem sub_le_add (ha : a.Nonneg) (hsub : b - a ≠ nan) (hadd : b + a ≠ nan) : b - a ≤ b + a := by
  change (Exact.add b (neg a)).Le (Exact.add b a)
  change Exact.add b (neg a) ≠ nan at hsub
  change Exact.add b a ≠ nan at hadd
  rcases a with x | m | _ <;> rcases b with y | n | _ <;>
    simp_all [Exact.add, Nonneg, neg, Le]

end Exact

end BarScript
