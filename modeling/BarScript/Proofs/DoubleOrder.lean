import Mathlib
import BarScript.Proofs.Grid
import BarScript.Proofs.Unavailable

/-!
# The order of doubles

The bits of a double without the sign grow with its distance from zero, so that every double has a
place among the integers (`Double.rank`), and doubles that are numbers are ordered as their places
are (`Double.le_iff`). The two zeros share a place. Negation turns the order around, and the order
of sorting, which tells the zeros apart, refines it (`Double.le_of_sortKey_le`).
-/

namespace BarScript.Double

open Float.Model Float.Model.UnpackedFloat

/-- The parts of a finite double. -/
structure InFormat (m : Nat) (e : Int) : Prop where
  bits : m < 2 ^ 53
  least : -1074 ≤ e
  greatest : e ≤ 971
  normal : 2 ^ 52 ≤ m ∨ e = -1074

/-- How far a finite double is from zero: its bits without the sign. -/
def magnitude (m : Nat) (e : Int) : Int := (e + 1074) * 2 ^ 52 + m

theorem InFormat.bounds {m : Nat} {e : Int} (h : InFormat m e) (hpos : 0 < m) :
    0 < magnitude m e ∧ magnitude m e < 2047 * 2 ^ 52 := by
  obtain ⟨hbits, hleast, hgreatest, -⟩ := h
  unfold magnitude
  omega

/-- A number as doubles are unpacked. -/
def Canonical : UnpackedFloat → Prop
  | .finite _ m e _ => InFormat m e
  | _ => True

/-- The place of a number in the order, where both zeros are one. -/
def place : UnpackedFloat → Int
  | .infinity s => s.apply (2047 * 2 ^ 52)
  | .notANumber => 0
  | .zero _ => 0
  | .finite s m e _ => s.apply (magnitude m e)

theorem toNat_unpackMantissa (b : BitVec 64) :
    (@unpackMantissa .binary64 b).toNat = b.toNat % 2 ^ 52 := by
  simp [unpackMantissa]

theorem toNat_unpackExponent (b : BitVec 64) :
    (@unpackExponent .binary64 b).toNat = b.toNat / 2 ^ 52 % 2 ^ 11 := by
  simp [unpackExponent, Nat.shiftRight_eq_div_pow]

theorem toNat_unpackSign (b : BitVec 64) :
    (@unpackSign .binary64 b).toNat = b.toNat / 2 ^ 63 := by
  have hlt : b.toNat < 2 ^ 64 := b.isLt
  simp [unpackSign, Nat.shiftRight_eq_div_pow]
  omega


/-- The sign bit as a sign. -/
def signBit (bits : Nat) : Sign := if bits < 2 ^ 63 then .positive else .negative

theorem ofBitVec_unpackSign (b : BitVec 64) :
    Sign.ofBitVec (@unpackSign .binary64 b) = signBit b.toNat := by
  have hlt : b.toNat < 2 ^ 64 := b.isLt
  have hzero : @unpackSign .binary64 b = 0#1 ↔ b.toNat < 2 ^ 63 := by
    rw [← BitVec.toNat_inj, toNat_unpackSign, BitVec.toNat_ofNat]
    omega
  simp only [Sign.ofBitVec, signBit, hzero]

/-- What the bits of a double stand for, by its exponent. -/
inductive Unpacks (bits : Nat) : UnpackedFloat → Prop
  | infinity (hexponent : bits / 2 ^ 52 % 2 ^ 11 = 2047) (hmantissa : bits % 2 ^ 52 = 0) :
    Unpacks bits (.infinity (signBit bits))
  | notANumber : Unpacks bits .notANumber
  | zero (hexponent : bits / 2 ^ 52 % 2 ^ 11 = 0) (hmantissa : bits % 2 ^ 52 = 0) :
    Unpacks bits (.zero (signBit bits))
  | subnormal (hexponent : bits / 2 ^ 52 % 2 ^ 11 = 0) {m : Nat} (hmantissa : bits % 2 ^ 52 = m)
    (hpos : 0 < m) : Unpacks bits (.finite (signBit bits) m (-1074) hpos)
  | normal {e : Nat} (hexponent : bits / 2 ^ 52 % 2 ^ 11 = e) (hsome : 0 < e) (hlt : e < 2047)
    {m : Nat} (hmantissa : 2 ^ 52 + bits % 2 ^ 52 = m) (hpos : 0 < m) :
    Unpacks bits (.finite (signBit bits) m (e - 1075) hpos)

theorem unpacks (b : BitVec 64) : Unpacks b.toNat (UnpackedFloat.unpack .binary64 b) := by
  have hmantissa := toNat_unpackMantissa b
  have hexponent := toNat_unpackExponent b
  unfold UnpackedFloat.unpack
  dsimp only
  rw [ofBitVec_unpackSign]
  split_ifs with hones hzero hzeros hnone
  · rw [hones] at hexponent
    rw [hzero] at hmantissa
    exact .infinity hexponent.symm hmantissa.symm
  · exact .notANumber
  · rw [hzeros] at hexponent
    rw [hnone] at hmantissa
    exact .zero hexponent.symm hmantissa.symm
  · simp only [hzeros] at hexponent ⊢
    exact .subnormal hexponent.symm hmantissa.symm _
  · have hlt : (@unpackExponent .binary64 b).toNat < 2 ^ 11 := BitVec.isLt _
    have hsome : (@unpackExponent .binary64 b).toNat ≠ 0 :=
      fun h => hzeros (BitVec.toNat_inj.1 h)
    have hmost : (@unpackExponent .binary64 b).toNat ≠ 2047 :=
      fun h => hones (BitVec.toNat_inj.1 h)
    refine .normal hexponent.symm (by omega) (by omega) ?_ _
    rw [BitVec.toNat_append, ← Nat.shiftLeft_add_eq_or_of_lt (BitVec.isLt _), ← hmantissa]
    rfl

variable {bits : Nat} {u v : UnpackedFloat}

theorem Unpacks.canonical (h : Unpacks bits u) : Canonical u := by
  cases h with
  | infinity | notANumber | zero => trivial
  | subnormal => constructor <;> omega
  | normal => constructor <;> omega

theorem Unpacks.place_eq (h : Unpacks bits u) (hu : u ≠ .notANumber) :
    place u = (signBit bits).apply (bits % 2 ^ 63 : Nat) := by
  cases h with
  | infinity => 
    rw [place]
    congr 1
    omega
  | notANumber => exact absurd rfl hu
  | zero =>
    have hnone : bits % 2 ^ 63 = 0 := by omega
    rw [place, hnone]
    cases signBit bits <;> rfl
  | subnormal =>
    rw [place, magnitude]
    congr 1
    omega
  | normal =>
    rw [place, magnitude]
    congr 1
    omega

/-- Of two finite doubles the one with the larger exponent is further from zero. -/
theorem compare_parts {m n : Nat} {d e : Int} (hm : InFormat m d) (hn : InFormat n e) :
    (compare d e).then (compare m n) = compare (magnitude m d) (magnitude n e) := by
  have h₁ := hm.bits
  have h₂ := hm.normal
  have h₃ := hn.bits
  have h₄ := hn.normal
  have h₅ := hm.least
  have h₆ := hn.least
  rcases lt_trichotomy d e with h | rfl | h
  · have hlt : magnitude m d < magnitude n e := by
      unfold magnitude
      omega
    rw [compare_lt_iff_lt.2 h, compare_lt_iff_lt.2 hlt]
    rfl
  · have hexponent : compare d d = .eq := compare_eq_iff_eq.2 rfl
    rw [hexponent, magnitude, magnitude]
    change compare m n = _
    rcases lt_trichotomy m n with h | rfl | h
    · rw [compare_lt_iff_lt.2 h, eq_comm, compare_lt_iff_lt]
      omega
    · rw [compare_eq_iff_eq.2 rfl, compare_eq_iff_eq.2 rfl]
    · rw [compare_gt_iff_gt.2 h, eq_comm, compare_gt_iff_gt]
      omega
  · have hgt : magnitude m d > magnitude n e := by
      unfold magnitude
      omega
    rw [compare_gt_iff_gt.2 h, compare_gt_iff_gt.2 hgt]
    rfl

theorem compare_neg (a b : Int) : compare (-a) (-b) = (compare a b).swap := by
  rcases lt_trichotomy a b with h | rfl | h
  · rw [compare_lt_iff_lt.2 h, Ordering.swap, compare_gt_iff_gt]
    omega
  · rw [compare_eq_iff_eq.2 rfl, compare_eq_iff_eq.2 rfl, Ordering.swap]
  · rw [compare_gt_iff_gt.2 h, Ordering.swap, compare_lt_iff_lt]
    omega

theorem some_compare_lt {a b : Int} (h : a < b) : some Ordering.lt = some (compare a b) := by
  rw [compare_lt_iff_lt.2 h]

theorem some_compare_gt {a b : Int} (h : b < a) : some Ordering.gt = some (compare a b) := by
  rw [compare_gt_iff_gt.2 h]

/-- Doubles compare as their places. -/
theorem compare_eq (hu : Canonical u) (hv : Canonical v) (hu' : u ≠ .notANumber)
    (hv' : v ≠ .notANumber) : u.compare v = some (compare (place u) (place v)) := by
  cases u with
  | notANumber => exact absurd rfl hu'
  | infinity s =>
    cases v with
    | notANumber => exact absurd rfl hv'
    | infinity t => cases s <;> cases t <;> rfl
    | zero t => cases s <;> rfl
    | finite t n e hpos =>
      obtain ⟨hpos, hlt⟩ := hv.bounds hpos
      cases s <;> cases t <;> dsimp only [UnpackedFloat.compare, place, Sign.apply]
      · exact some_compare_lt (by omega)
      · exact some_compare_lt (by omega)
      · exact some_compare_gt (by omega)
      · exact some_compare_gt (by omega)
  | zero s =>
    cases v with
    | notANumber => exact absurd rfl hv'
    | infinity t => cases t <;> rfl
    | zero t => rfl
    | finite t n e hpos =>
      obtain ⟨hpos, -⟩ := hv.bounds hpos
      cases t <;> dsimp only [UnpackedFloat.compare, place, Sign.apply]
      · exact some_compare_gt (by omega)
      · exact some_compare_lt hpos
  | finite s m d hpos =>
    obtain ⟨hpos, hlt⟩ := hu.bounds hpos
    cases v with
    | notANumber => exact absurd rfl hv'
    | infinity t =>
      cases s <;> cases t <;> dsimp only [UnpackedFloat.compare, place, Sign.apply]
      · exact some_compare_gt (by omega)
      · exact some_compare_lt (by omega)
      · exact some_compare_gt (by omega)
      · exact some_compare_lt (by omega)
    | zero t =>
      cases s <;> dsimp only [UnpackedFloat.compare, place, Sign.apply]
      · exact some_compare_lt (by omega)
      · exact some_compare_gt hpos
    | finite t n e hpos' =>
      obtain ⟨hpos', -⟩ := hv.bounds hpos'
      have hparts := compare_parts hu hv
      cases s <;> cases t <;> dsimp only [UnpackedFloat.compare, place, Sign.apply]
      · rw [hparts, compare_neg]
      · exact some_compare_lt (by omega)
      · exact some_compare_gt (by omega)
      · rw [hparts]

/-! ## Doubles -/

theorem unpack_pack_canonical (h : Canonical u) : (Float.Model.pack u).unpack = u := by
  cases u with
  | notANumber => rfl
  | infinity s => cases s <;> rfl
  | zero s => cases s <;> rfl
  | finite s m e hpos =>
    obtain ⟨hbits, hleast, hgreatest, hnormal⟩ := h
    by_cases hm : 2 ^ 52 ≤ m
    · exact unpack_pack_normal s hm hbits hleast hgreatest hpos
    · obtain rfl := hnormal.resolve_left hm
      exact unpack_pack_subnormal s (by omega) hpos

variable {x y z : Float}

/-- The place of a double in the order of the numbers. -/
def rank (x : Float) : Int := place x.toModel.unpack

theorem unpacks_toBits (x : Float) : Unpacks x.toBits.toNat x.toModel.unpack :=
  unpacks x.toModel.toBits.toBitVec

theorem not_isNaN_iff : Arith.isNaN x = false ↔ x.toModel.unpack ≠ .notANumber := by
  rw [← Bool.not_eq_true, isNaN_iff_unpack]

/-- A double is at most another one if both are numbers and stand in this order. -/
theorem le_iff : x ≤ y ↔ Arith.isNaN x = false ∧ Arith.isNaN y = false ∧ rank x ≤ rank y := by
  change decide (x.toModel.unpack.le y.toModel.unpack = true) = true ↔ _
  rw [decide_eq_true_iff, not_isNaN_iff, not_isNaN_iff, UnpackedFloat.le]
  by_cases hx : x.toModel.unpack = .notANumber
  · simp [hx, UnpackedFloat.compare]
  by_cases hy : y.toModel.unpack = .notANumber
  · simp [hy, UnpackedFloat.compare]
  rw [compare_eq (unpacks_toBits x).canonical (unpacks_toBits y).canonical hx hy]
  simp [hx, hy, rank, Ordering.isLE_iff_ne_gt, compare_gt_iff_gt]

theorem le_total (hx : Arith.isNaN x = false) (hy : Arith.isNaN y = false) : x ≤ y ∨ y ≤ x := by
  simp only [le_iff, hx, hy, true_and]
  exact Int.le_total _ _

theorem le_trans (hxy : x ≤ y) (hyz : y ≤ z) : x ≤ z := by
  rw [le_iff] at *
  exact ⟨hxy.1, hyz.2.1, hxy.2.2.trans hyz.2.2⟩

theorem rank_eq (hx : Arith.isNaN x = false) :
    rank x =
      if x.toBits.toNat < 2 ^ 63 then (x.toBits.toNat : Int) else 2 ^ 63 - x.toBits.toNat := by
  have hlt : x.toBits.toNat < 2 ^ 64 := x.toBits.toNat_lt
  rw [rank, (unpacks_toBits x).place_eq (not_isNaN_iff.1 hx), signBit]
  split_ifs <;> dsimp only [Sign.apply] <;> omega

/-- Sorting puts smaller numbers first. -/
theorem le_of_sortKey_le (hx : Arith.isNaN x = false) (hy : Arith.isNaN y = false)
    (h : sortKey x ≤ sortKey y) : x ≤ y := by
  have hpower : twoTo 63 = 2 ^ 63 := rfl
  rw [le_iff, rank_eq hx, rank_eq hy]
  refine ⟨hx, hy, ?_⟩
  unfold sortKey at h
  dsimp only at h
  rw [hpower] at h
  split_ifs at h ⊢ <;> omega

/-! ## Negation -/

theorem unpack_neg (x : Float) : (-x).toModel.unpack = x.toModel.unpack.neg := by
  refine unpack_pack_canonical ?_
  have h := (unpacks_toBits x).canonical
  cases hx : x.toModel.unpack <;> rw [hx] at h <;> trivial

@[simp] theorem isNaN_neg (x : Float) : Arith.isNaN (-x) = Arith.isNaN x := by
  rw [Bool.eq_iff_iff, isNaN_iff_unpack, isNaN_iff_unpack, unpack_neg]
  cases x.toModel.unpack <;> simp [UnpackedFloat.neg]

@[simp] theorem rank_neg (x : Float) : rank (-x) = -rank x := by
  rw [rank, rank, unpack_neg]
  cases x.toModel.unpack with
  | notANumber => rfl
  | zero s => rfl
  | infinity s => cases s <;> rfl
  | finite s m e hpos => 
    cases s with
    | negative => exact (Int.neg_neg _).symm
    | positive => rfl

@[simp] theorem neg_le_neg_iff : -x ≤ -y ↔ y ≤ x := by
  simp only [le_iff, isNaN_neg, rank_neg, Int.neg_le_neg_iff]
  tauto

/-! ## Infinities -/

/-- The infinity above all numbers. -/
def infinity : Float := 1 / 0

theorem isNaN_infinity : Arith.isNaN infinity = false := rfl

theorem rank_infinity : rank infinity = 2047 * 2 ^ 52 := rfl

theorem isNaN_greatest : Arith.isNaN (Arith.greatest : Float) = false := rfl

theorem rank_greatest : rank (Arith.greatest : Float) = 2047 * 2 ^ 52 - 1 := rfl

theorem lowest_eq_neg : (Arith.lowest : Float) = -Arith.greatest := rfl

theorem isNaN_lowest : Arith.isNaN (Arith.lowest : Float) = false := by
  rw [lowest_eq_neg, isNaN_neg, isNaN_greatest]

theorem rank_lowest : rank (Arith.lowest : Float) = 1 - 2047 * 2 ^ 52 := by
  rw [lowest_eq_neg, rank_neg, rank_greatest, Int.neg_sub]

theorem natAbs_rank_le (x : Float) : (rank x).natAbs ≤ 2047 * 2 ^ 52 := by
  have h := (unpacks_toBits x).canonical
  rw [rank]
  cases hx : x.toModel.unpack with
  | notANumber => exact Nat.zero_le _
  | zero s => exact Nat.zero_le _
  | infinity s => cases s <;> exact le_rfl
  | finite s m e hpos =>
    rw [hx] at h
    obtain ⟨hpos, hlt⟩ := h.bounds hpos
    cases s <;> dsimp only [place, Sign.apply] <;> omega

/-- Numbers that share a place are the same, unless they are zeros. -/
theorem eq_of_rank_eq (hx : Arith.isNaN x = false) (hy : Arith.isNaN y = false)
    (h : rank x = rank y) (hzero : rank x ≠ 0) : x = y := by
  have hltx : x.toBits.toNat < 2 ^ 64 := x.toBits.toNat_lt
  have hlty : y.toBits.toNat < 2 ^ 64 := y.toBits.toNat_lt
  have hbits : x.toBits.toNat = y.toBits.toNat := by
    rw [rank_eq hx] at h hzero
    rw [rank_eq hy] at h
    split_ifs at h hzero <;> omega
  have hmodel : x.toModel.toBits = y.toModel.toBits := UInt64.toNat_inj.1 hbits
  rcases x with ⟨⟨b, _⟩⟩
  rcases y with ⟨⟨c, _⟩⟩
  simpa using hmodel

/-- Below the least finite number there is nothing but negative infinity. -/
theorem lowest_le_iff (hx : Arith.isNaN x = false) : Arith.lowest ≤ x ↔ x ≠ -infinity := by
  have hbound := natAbs_rank_le x
  have hrank := rank_neg infinity
  rw [rank_infinity] at hrank
  have hinfinity : Arith.isNaN (-infinity) = false := (isNaN_neg _).trans isNaN_infinity
  rw [le_iff, rank_lowest]
  refine ⟨fun ⟨_, _, hle⟩ => ?_, fun hne => ⟨isNaN_lowest, hx, ?_⟩⟩
  · rintro rfl
    omega
  · by_contra hlt
    exact hne (eq_of_rank_eq hx hinfinity (by omega) (by omega))

/-- Above the greatest finite number there is nothing but infinity. -/
theorem le_greatest_iff (hx : Arith.isNaN x = false) : x ≤ Arith.greatest ↔ x ≠ infinity := by
  have hbound := natAbs_rank_le x
  have hrank := rank_infinity
  rw [le_iff, rank_greatest]
  refine ⟨fun ⟨_, _, hle⟩ => ?_, fun hne => ⟨hx, isNaN_greatest, ?_⟩⟩
  · rintro rfl
    omega
  · by_contra hlt
    exact hne (eq_of_rank_eq hx isNaN_infinity (by omega) (by omega))

end BarScript.Double
