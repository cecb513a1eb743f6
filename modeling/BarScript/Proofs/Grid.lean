import Mathlib
import BarScript.Arith.Double

/-!
# Doubles on a grid

The multiples of a power of two that have no more than 53 bits are doubles, and as long as a result
is one of them too, they are added and subtracted without rounding (`dyadic_add`, `dyadic_sub`).
-/

namespace BarScript.Double

open Float.Model Float.Model.UnpackedFloat

/-! ## Rounding what needs no rounding -/

/-- Bits that are all zero may be shifted out. -/
theorem shiftRight_exact (n d : Nat) :
    (⟨n * 2 ^ d, false, false⟩ : ExtendedMantissa) >>> d = ⟨n, false, false⟩ := by
  change d.repeat ExtendedMantissa.shiftRightOne ⟨n * 2 ^ d, false, false⟩ = _
  induction d generalizing n with
  | zero => simp [Nat.repeat]
  | succ d ih =>
    rw [Nat.repeat, Nat.pow_succ', ← Nat.mul_assoc, ih (n * 2)]
    simp [ExtendedMantissa.shiftRightOne]

theorem log2_mul_two_pow {n : Nat} (hn : n ≠ 0) (j : Nat) : (n * 2 ^ j).log2 = n.log2 + j := by
  rw [Nat.log2_eq_log_two, Nat.log2_eq_log_two]
  induction j with
  | zero => simp
  | succ j ih => rw [Nat.pow_succ, ← Nat.mul_assoc, Nat.log_mul_base one_lt_two (by positivity), ih,
      Nat.add_assoc]

/-- How far the exponent of a number may be lowered without a mantissa of more than 53 bits. -/
def room (n : Nat) (e : Int) : Nat := min (52 - n.log2) (e + 1074).toNat

section

variable {n : Nat} {e : Int}

theorem targetExponent_eq (hn : n ≠ 0) (hlt : n < 2 ^ 53) (he : -1074 ≤ e) (j : Nat) :
    Format.binary64.targetExponent (totalExponent (n * 2 ^ j) (e - j)) = e - room n e := by
  have hlog : n.log2 < 53 := (Nat.log2_lt hn).2 hlt
  have hmin : Format.binary64.minExponent = -1074 := rfl
  have hbits : (Format.binary64.mantissaBits : Int) = 53 := rfl
  rw [Format.targetExponent, totalExponent, log2_mul_two_pow hn, hmin, hbits, room]
  omega

theorem shiftToTarget_eq (hn : n ≠ 0) (hlt : n < 2 ^ 53) (he : -1074 ≤ e) {j : Nat}
    (hj : room n e ≤ j) :
    shiftToTargetExponent .binary64 (n * 2 ^ j) (e - j) .exact =
      (⟨n * 2 ^ room n e, false, false⟩, e - room n e) := by
  rw [shiftToTargetExponent, targetExponent_eq hn hlt he, shiftToExponent]
  have hshift : (e - room n e - (e - j)).toNat = j - room n e := by omega
  have hmantissa : n * 2 ^ j = n * 2 ^ room n e * 2 ^ (j - room n e) := by
    rw [Nat.mul_assoc, ← Nat.pow_add, Nat.add_sub_cancel' hj]
  rw [hshift, hmantissa]
  refine Prod.ext (shiftRight_exact _ _) ?_
  dsimp only
  omega

/-- A multiple of a power of two with at most 53 bits is rounded to itself. -/
theorem round_exact (hn : n ≠ 0) (hlt : n < 2 ^ 53) (he : -1074 ≤ e) (s : Sign) (j : Nat) :
    ∃ hpos, UnpackedFloat.round .binary64 s (n * 2 ^ j) (e - j) =
      .finite s (n * 2 ^ room n e) (e - room n e) hpos := by
  have hpos : 0 < n * 2 ^ room n e := by positivity
  refine ⟨hpos, ?_⟩
  -- First the exponent is lowered to the target, if it is above.
  have hdecrease : decreaseExponent (n * 2 ^ j) (e - j) (e - room n e) =
      (n * 2 ^ max j (room n e), e - (max j (room n e) : Nat)) := by
    have hshift : (e - j - (e - room n e)).toNat = room n e - j := by omega
    have hmax : max j (room n e) = j + (room n e - j) := by omega
    rw [decreaseExponent, hshift, Nat.shiftLeft_eq, Nat.mul_assoc, ← Nat.pow_add, ← hmax]
    refine Prod.ext rfl ?_
    dsimp only
    omega
  rw [UnpackedFloat.round, targetExponent_eq hn hlt he, hdecrease]
  dsimp only
  rw [roundWithAccuracy, shiftToTarget_eq hn hlt he (Nat.le_max_right _ _)]
  have hrounded : ExtendedMantissa.roundedMantissa ⟨n * 2 ^ room n e, false, false⟩ =
      n * 2 ^ room n e := rfl
  dsimp only
  rw [hrounded]
  simp only [shiftToTarget_eq hn hlt he le_rfl]
  exact dif_neg hpos.ne'

end

/-! ## The doubles of a grid -/

/-- The sign of a number that is not zero. -/
def signOf (n : Int) : Sign := if n < 0 then .negative else .positive

theorem signOf_apply (n : Int) (m : Nat) : (signOf n).apply (n.natAbs * m : Nat) = n * m := by
  rw [signOf]
  split_ifs with hn
  · rw [Sign.apply, Nat.cast_mul, Int.ofNat_natAbs_of_nonpos (by omega)]
    ring
  · rw [Sign.apply, Nat.cast_mul, Int.natAbs_of_nonneg (by omega)]

theorem signOf_neg {n : Int} (hn : n ≠ 0) : signOf (-n) = -signOf n := by
  rw [signOf, signOf]
  split_ifs <;> first | omega | rfl

theorem signOf_mul_pow (n : Int) (j : Nat) : signOf (n * 2 ^ j) = signOf n := by
  have hpos : (0 : Int) < 2 ^ j := by positivity
  rw [signOf, signOf]
  simp only [mul_neg_iff, hpos, hpos.not_gt, and_true, and_false, false_or]

theorem normalize_eq_round {n : Int} (hn : n ≠ 0) (e : Int) (s : Sign) :
    UnpackedFloat.normalize .binary64 n e s =
      UnpackedFloat.round .binary64 (signOf n) n.natAbs e := by
  rw [UnpackedFloat.normalize, signOf]
  rcases lt_or_gt_of_ne hn with h | h
  · have habs : (-n).toNat = n.natAbs := by omega
    rw [Int.compare_eq_lt.2 h, if_pos h]
    dsimp only
    rw [habs]
  · have habs : n.toNat = n.natAbs := by omega
    rw [Int.compare_eq_gt.2 h, if_neg (by omega)]
    dsimp only
    rw [habs]

/-- A multiple of `2 ^ e` as a double, if it has one without rounding. -/
def exactly (e n : Int) : UnpackedFloat :=
  UnpackedFloat.normalize .binary64 n e .positive

section

variable {e n : Int}

theorem exactly_zero (e : Int) : exactly e 0 = .zero .positive := rfl

theorem exactly_finite (hn : n ≠ 0) (hlt : n.natAbs < 2 ^ 53) (he : -1074 ≤ e) :
    ∃ hpos, exactly e n = .finite (signOf n) (n.natAbs * 2 ^ room n.natAbs e)
      (e - room n.natAbs e) hpos := by
  obtain ⟨hpos, hround⟩ := round_exact (Int.natAbs_ne_zero.2 hn) hlt he (signOf n) 0
  simp only [Nat.pow_zero, Nat.mul_one, Nat.cast_zero, Int.sub_zero] at hround
  exact ⟨hpos, by rw [exactly, normalize_eq_round hn, hround]⟩

/-- The grid of a smaller power of two has the same doubles. -/
theorem normalize_scaled (hlt : n.natAbs < 2 ^ 53) (he : -1074 ≤ e) (j : Nat) :
    UnpackedFloat.normalize .binary64 (n * 2 ^ j) (e - j) .positive = exactly e n := by
  by_cases hn : n = 0
  · simp [hn, exactly, UnpackedFloat.normalize]
  · have hscaled : n * 2 ^ j ≠ 0 := by positivity
    obtain ⟨hpos, hround⟩ := round_exact (Int.natAbs_ne_zero.2 hn) hlt he (signOf n) j
    obtain ⟨_, hexactly⟩ := exactly_finite hn hlt he
    have habs : (n * 2 ^ j).natAbs = n.natAbs * 2 ^ j := by
      rw [Int.natAbs_mul, Int.natAbs_pow]
      rfl
    rw [normalize_eq_round hscaled, signOf_mul_pow, habs, hround, hexactly]

end

/-! ## Packing -/

theorem unpack_pack_normal (s : Sign) {m : Nat} {e : Int} (hm : 2 ^ 52 ≤ m) (hlt : m < 2 ^ 53)
    (he : -1074 ≤ e) (he' : e ≤ 971) (hpos : 0 < m) :
    (Float.Model.pack (.finite s m e hpos)).unpack = .finite s m e hpos := by
  have hlog : m.log2 = 52 := (Nat.log2_eq_iff hpos.ne').2 ⟨hm, hlt⟩
  generalize hbiased : (e + 1023 + 52).toNat = biased
  have hpack : UnpackedFloat.pack .binary64 (.finite s m e hpos) =
      packComponents .binary64 s (BitVec.ofNat 11 biased) (BitVec.ofNat 52 m) := by
    change (if 2 ^ 11 ≤ (e + 1023 + 52).toNat + 1 then _ else if m.log2 + 1 = 53 then
      packComponents .binary64 s (BitVec.ofNat 11 (e + 1023 + 52).toNat) _ else _) = _
    rw [hbiased, if_neg (by omega), if_pos (by omega)]
  have hexponent : (BitVec.ofNat 11 biased).toNat = biased := by
    rw [BitVec.toNat_ofNat]
    omega
  have hones : ¬ BitVec.ofNat 11 biased = -1#11 := fun h => by
    have h' : (BitVec.ofNat 11 biased).toNat = 2047 := congrArg BitVec.toNat h
    omega
  have hzeros : ¬ BitVec.ofNat 11 biased = 0#11 := fun h => by
    have h' : (BitVec.ofNat 11 biased).toNat = 0 := congrArg BitVec.toNat h
    omega
  have hmantissa : (1#1 ++ BitVec.ofNat 52 m).toNat = m := by
    rw [BitVec.toNat_append, ← Nat.shiftLeft_add_eq_or_of_lt (BitVec.isLt _)]
    simp only [BitVec.toNat_ofNat, Nat.shiftLeft_eq]
    omega
  have hback : (biased : Int) - (1023 + 52) = e := by omega
  change UnpackedFloat.unpack .binary64 (UnpackedFloat.pack .binary64 (.finite s m e hpos)) = _
  rw [hpack, UnpackedFloat.unpack]
  simp only [unpackMantissa_packComponents, unpackExponent_packComponents,
    unpackSign_packComponents, Sign.ofBitVec_toBitVec, hones, hzeros, hexponent, hmantissa]
  rw [if_neg not_false, if_neg not_false]
  congr 1

theorem unpack_pack_subnormal (s : Sign) {m : Nat} (hm : m < 2 ^ 52) (hpos : 0 < m) :
    (Float.Model.pack (.finite s m (-1074) hpos)).unpack = .finite s m (-1074) hpos := by
  have hlog : m.log2 < 52 := (Nat.log2_lt hpos.ne').2 hm
  have hpack : UnpackedFloat.pack .binary64 (.finite s m (-1074) hpos) =
      packComponents .binary64 s 0#11 (BitVec.ofNat 52 m) := by
    change (if 2 ^ 11 ≤ (-1074 + 1023 + 52 : Int).toNat + 1 then packedInfinity .binary64 s
      else if m.log2 + 1 = 53 then _ else packComponents .binary64 s 0#11 _) = _
    rw [if_neg (by decide), if_neg (by omega)]
  have hmantissa : (BitVec.ofNat 52 m).toNat = m := by
    rw [BitVec.toNat_ofNat]
    omega
  have hsome : ¬ BitVec.ofNat 52 m = 0#52 := fun h => by
    have h' : (BitVec.ofNat 52 m).toNat = 0 := congrArg BitVec.toNat h
    omega
  have hones : ¬ 0#11 = -1#11 := by decide
  change UnpackedFloat.unpack .binary64
    (UnpackedFloat.pack .binary64 (.finite s m (-1074) hpos)) = _
  rw [hpack, UnpackedFloat.unpack]
  simp only [unpackMantissa_packComponents, unpackExponent_packComponents,
    unpackSign_packComponents, Sign.ofBitVec_toBitVec, hones, hsome, hmantissa]
  rfl

theorem unpack_pack_exactly {e n : Int} (hlt : n.natAbs < 2 ^ 53) (he : -1074 ≤ e)
    (he' : e ≤ 971) : (Float.Model.pack (exactly e n)).unpack = exactly e n := by
  by_cases hn : n = 0
  · rw [hn, exactly_zero, Float.Model.unpack, Float.Model.pack]
    exact unpack_packedZero
  have habs : n.natAbs ≠ 0 := Int.natAbs_ne_zero.2 hn
  have hlog : n.natAbs.log2 < 53 := (Nat.log2_lt habs).2 hlt
  obtain ⟨hpos, hfinite⟩ := exactly_finite hn hlt he
  have hmantissa := log2_mul_two_pow habs (room n.natAbs e)
  rw [hfinite]
  -- The exponent is lowered until the mantissa has 53 bits, or to the smallest exponent there is.
  rcases le_total (52 - n.natAbs.log2) (e + 1074).toNat with h | h
  · have hroom : room n.natAbs e = 52 - n.natAbs.log2 := min_eq_left h
    have hbits := (Nat.log2_eq_iff hpos.ne').1 (show _ = 52 by omega)
    exact unpack_pack_normal _ hbits.1 hbits.2 (by omega) (by omega) hpos
  · have hroom : room n.natAbs e = (e + 1074).toNat := min_eq_right h
    have hlow : e - room n.natAbs e = -1074 := by omega
    simp only [hlow]
    by_cases hbits : (n.natAbs * 2 ^ room n.natAbs e).log2 < 52
    · exact unpack_pack_subnormal _ ((Nat.log2_lt hpos.ne').1 hbits) hpos
    · have hbits' := (Nat.log2_eq_iff hpos.ne').1 (show _ = 52 by omega)
      exact unpack_pack_normal _ hbits'.1 hbits'.2 le_rfl (by omega) hpos

/-! ## Sums and differences -/

section

variable {e a b : Int}

theorem decreaseExponent_eq (m : Nat) (e : Int) {j k : Nat} (h : j ≤ k) :
    (decreaseExponent (m * 2 ^ j) (e - j) (e - k)).1 = m * 2 ^ k := by
  have hshift : (e - j - (e - k)).toNat = k - j := by omega
  rw [decreaseExponent, hshift, Nat.shiftLeft_eq, Nat.mul_assoc, ← Nat.pow_add,
    Nat.add_sub_cancel' h]

/-- Two numbers of a grid with the exponents lowered to the same one. -/
theorem aligned_apply (n e : Int) {j k : Nat} (h : j ≤ k) :
    (signOf n).apply ((decreaseExponent (n.natAbs * 2 ^ j) (e - j) (e - k)).1 : Int) =
      n * 2 ^ k := by
  rw [decreaseExponent_eq _ _ h, signOf_apply]
  push_cast
  rfl

theorem add_finite (s t : Sign) (m n : Nat) (i j : Int) (hm : 0 < m) (hn : 0 < n) :
    UnpackedFloat.add .binary64 (.finite s m i hm) (.finite t n j hn) =
      UnpackedFloat.normalize .binary64
        (s.apply ((decreaseExponent m i (min i j)).1 : Int) +
          t.apply ((decreaseExponent n j (min i j)).1 : Int)) (min i j) .positive := rfl

theorem sub_finite (s t : Sign) (m n : Nat) (i j : Int) (hm : 0 < m) (hn : 0 < n) :
    UnpackedFloat.sub .binary64 (.finite s m i hm) (.finite t n j hn) =
      UnpackedFloat.normalize .binary64
        (s.apply ((decreaseExponent m i (min i j)).1 : Int) -
          t.apply ((decreaseExponent n j (min i j)).1 : Int)) (min i j) .positive := rfl

theorem exactly_add (ha : a.natAbs < 2 ^ 53) (hb : b.natAbs < 2 ^ 53)
    (hab : (a + b).natAbs < 2 ^ 53) (he : -1074 ≤ e) :
    UnpackedFloat.add .binary64 (exactly e a) (exactly e b) = exactly e (a + b) := by
  by_cases hazero : a = 0
  · rw [hazero, exactly_zero, Int.zero_add]
    by_cases hbzero : b = 0
    · rw [hbzero]
      rfl
    · obtain ⟨_, hfinite⟩ := exactly_finite hbzero hb he
      rw [hfinite]
      rfl
  by_cases hbzero : b = 0
  · obtain ⟨_, hfinite⟩ := exactly_finite hazero ha he
    rw [hbzero, exactly_zero, Int.add_zero, hfinite]
    rfl
  obtain ⟨_, hfa⟩ := exactly_finite hazero ha he
  obtain ⟨_, hfb⟩ := exactly_finite hbzero hb he
  have hmin : min (e - room a.natAbs e) (e - room b.natAbs e) =
      e - (max (room a.natAbs e) (room b.natAbs e) : Nat) := by omega
  rw [hfa, hfb, add_finite, hmin, aligned_apply a e (Nat.le_max_left _ _),
    aligned_apply b e (Nat.le_max_right _ _), ← Int.add_mul, normalize_scaled hab he]

theorem exactly_sub (ha : a.natAbs < 2 ^ 53) (hb : b.natAbs < 2 ^ 53)
    (hab : (a - b).natAbs < 2 ^ 53) (he : -1074 ≤ e) :
    UnpackedFloat.sub .binary64 (exactly e a) (exactly e b) = exactly e (a - b) := by
  by_cases hbzero : b = 0
  · rw [hbzero, exactly_zero, Int.sub_zero]
    by_cases hazero : a = 0
    · rw [hazero]
      rfl
    · obtain ⟨_, hfinite⟩ := exactly_finite hazero ha he
      rw [hfinite]
      rfl
  obtain ⟨_, hfb⟩ := exactly_finite hbzero hb he
  by_cases hazero : a = 0
  · have hneg : (-b).natAbs < 2 ^ 53 := by rwa [Int.natAbs_neg]
    obtain ⟨_, hfinite⟩ := exactly_finite (neg_ne_zero.2 hbzero) hneg he
    rw [hazero, exactly_zero, Int.zero_sub, hfinite, hfb]
    simp only [Int.natAbs_neg, signOf_neg hbzero]
    rfl
  obtain ⟨_, hfa⟩ := exactly_finite hazero ha he
  have hmin : min (e - room a.natAbs e) (e - room b.natAbs e) =
      e - (max (room a.natAbs e) (room b.natAbs e) : Nat) := by omega
  rw [hfa, hfb, sub_finite, hmin, aligned_apply a e (Nat.le_max_left _ _),
    aligned_apply b e (Nat.le_max_right _ _), ← Int.sub_mul, normalize_scaled hab he]

end

/-- The double `n * 2 ^ e`. -/
def dyadic (e n : Int) : Float := .ofModel (Float.Model.pack (exactly e n))

/-- The powers of two of the doubles. -/
def InRange (e : Int) : Prop := -1074 ≤ e ∧ e ≤ 971

section

variable {e a b : Int}

theorem dyadic_add (he : InRange e) (ha : a.natAbs < 2 ^ 53) (hb : b.natAbs < 2 ^ 53)
    (hab : (a + b).natAbs < 2 ^ 53) : dyadic e a + dyadic e b = dyadic e (a + b) := by
  obtain ⟨hlow, hhigh⟩ := he
  change Float.ofModel (Float.Model.pack (UnpackedFloat.add .binary64
    (Float.Model.pack (exactly e a)).unpack (Float.Model.pack (exactly e b)).unpack)) = _
  rw [unpack_pack_exactly ha hlow hhigh, unpack_pack_exactly hb hlow hhigh,
    exactly_add ha hb hab hlow, dyadic]

theorem dyadic_sub (he : InRange e) (ha : a.natAbs < 2 ^ 53) (hb : b.natAbs < 2 ^ 53)
    (hab : (a - b).natAbs < 2 ^ 53) : dyadic e a - dyadic e b = dyadic e (a - b) := by
  obtain ⟨hlow, hhigh⟩ := he
  change Float.ofModel (Float.Model.pack (UnpackedFloat.sub .binary64
    (Float.Model.pack (exactly e a)).unpack (Float.Model.pack (exactly e b)).unpack)) = _
  rw [unpack_pack_exactly ha hlow hhigh, unpack_pack_exactly hb hlow hhigh,
    exactly_sub ha hb hab hlow, dyadic]

end

end BarScript.Double
