import Mathlib
import BarScript.Proofs.RunningMean

/-!
# Between the least and the greatest

A mean with positive weights lies between the least and the greatest of its numbers (`mean_within`).
If all of them are finite that is a fact about real numbers. If not, a sum that is available is one
of the infinities itself (`Exact.sum_cases`), and so is the mean.
-/

namespace BarScript

/-- A number lies between the least and the greatest of some available numbers. -/
def Within (xs : List Exact) (y : Exact) : Prop :=
  ∃ low ∈ xs, ∃ high ∈ xs, (∀ x ∈ xs, low ≤ x ∧ x ≤ high) ∧ low ≤ y ∧ y ≤ high

namespace Within

variable {xs ys : List Exact} {y z : Exact}

theorem exists_least (hne : xs ≠ []) (hnone : .nan ∉ xs) : ∃ low ∈ xs, ∀ x ∈ xs, low ≤ x := by
  obtain ⟨low, hlow⟩ : ∃ low, xs.argmin Exact.place = some low :=
    Option.ne_none_iff_exists'.1 (mt List.argmin_eq_none.1 hne)
  have hmem : low ∈ xs := List.argmin_mem hlow
  refine ⟨low, hmem, fun x hx => ?_⟩
  rw [Exact.le_iff_place (ne_of_mem_of_not_mem hmem hnone) (ne_of_mem_of_not_mem hx hnone)]
  exact List.le_of_mem_argmin hx hlow

theorem exists_greatest (hne : xs ≠ []) (hnone : .nan ∉ xs) : ∃ high ∈ xs, ∀ x ∈ xs, x ≤ high := by
  obtain ⟨high, hhigh⟩ : ∃ high, xs.argmax Exact.place = some high :=
    Option.ne_none_iff_exists'.1 (mt List.argmax_eq_none.1 hne)
  have hmem : high ∈ xs := List.argmax_mem hhigh
  refine ⟨high, hmem, fun x hx => ?_⟩
  rw [Exact.le_iff_place (ne_of_mem_of_not_mem hx hnone) (ne_of_mem_of_not_mem hmem hnone)]
  exact List.le_of_mem_argmax hx hhigh

theorem of_mem (hnone : .nan ∉ xs) (hy : y ∈ xs) : Within xs y := by
  obtain ⟨low, hlow, hleast⟩ := exists_least (List.ne_nil_of_mem hy) hnone
  obtain ⟨high, hhigh, hgreatest⟩ := exists_greatest (List.ne_nil_of_mem hy) hnone
  exact ⟨low, hlow, high, hhigh, fun x hx => ⟨hleast x hx, hgreatest x hx⟩, hleast y hy,
    hgreatest y hy⟩

/-- Between numbers that are in between themselves. -/
theorem trans (h : Within ys z) (hys : ∀ y ∈ ys, Within xs y) : Within xs z := by
  obtain ⟨low, hlow, high, hhigh, -, hlz, hzh⟩ := h
  obtain ⟨least, hleast, greatest, hgreatest, hall, hll, -⟩ := hys low hlow
  obtain ⟨-, -, greatest', hgreatest', -, -, hhg⟩ := hys high hhigh
  refine ⟨least, hleast, greatest, hgreatest, hall, Exact.le_trans hll hlz, ?_⟩
  exact Exact.le_trans hzh (Exact.le_trans hhg (hall greatest' hgreatest').2)

theorem mono (h : Within ys z) (hnone : .nan ∉ xs) (hsub : ys ⊆ xs) : Within xs z :=
  h.trans fun _ hy => of_mem hnone (hsub hy)

end Within

/-! ## Sums -/

namespace Exact

variable {a : Exact}

@[simp] theorem sum_nil : Arith.sum ([] : List Exact) = fin 0 := by
  rw [Arith.sum, List.foldl_nil, numeral_eq, neg_fin]
  simp

@[simp] theorem add_zero (a : Exact) : a + fin 0 = a := by
  change Exact.add a (fin 0) = a
  cases a <;> simp [Exact.add]

@[simp] theorem one_mul (a : Exact) : fin 1 * a = a := by
  change Exact.mul (fin 1) a = a
  cases a <;> simp [Exact.mul, scaled, zero_le_one.not_gt]

@[simp] theorem nan_div (a : Exact) : nan / a = nan := by cases a <;> rfl

@[simp] theorem div_nan (a : Exact) : a / nan = nan := by cases a <;> rfl

@[simp] theorem div_one (a : Exact) : a / fin 1 = a := by
  change Exact.div a (fin 1) = a
  cases a <;> simp [Exact.div, zero_le_one.not_gt]

protected theorem mul_comm (a b : Exact) : a * b = b * a := by
  change Exact.mul a b = Exact.mul b a
  rcases a with x | m | _ <;> rcases b with y | n | _ <;> simp only [Exact.mul]
  · rw [mul_comm]
  · cases m <;> cases n <;> rfl

theorem nan_not_mem_of_sum {xs : List Exact} (h : Arith.sum xs ≠ nan) : nan ∉ xs := by
  induction xs with
  | nil => exact List.not_mem_nil
  | cons a xs ih =>
    rw [sum_cons] at h
    rintro (_ | ⟨_, hmem⟩)
    · exact h (nan_add _)
    · refine ih (fun hrest => h ?_) hmem
      rw [hrest, add_nan]

/-- An available sum is one of finite numbers, or it is an infinity that occurs in it. -/
theorem sum_cases {xs : List Exact} (h : Arith.sum xs ≠ nan) :
    (∃ zs : List ℝ, xs = zs.map fin) ∨ ∃ n, inf n ∈ xs ∧ Arith.sum xs = inf n := by
  induction xs with
  | nil => exact .inl ⟨[], rfl⟩
  | cons a xs ih =>
    rw [sum_cons] at h ⊢
    have hrest : Arith.sum xs ≠ nan := fun hrest => h (by rw [hrest, add_nan])
    rcases ih hrest with ⟨zs, rfl⟩ | ⟨n, hmem, hsum⟩
    · rw [sum_fin] at h ⊢
      cases a with
      | fin x => exact .inl ⟨x :: zs, rfl⟩
      | inf m => exact .inr ⟨m, List.mem_cons_self, rfl⟩
      | nan => exact absurd (nan_add _) h
    · rw [hsum] at h ⊢
      refine .inr ⟨n, List.mem_cons_of_mem a hmem, ?_⟩
      cases a with
      | fin x => rfl
      | inf m =>
        change Exact.add (inf m) (inf n) ≠ nan at h
        change Exact.add (inf m) (inf n) = inf n
        rw [Exact.add] at h ⊢
        split_ifs at h ⊢ with hmn
        · rw [hmn]
        · exact h rfl
      | nan => exact absurd (nan_add _) h

/-- A function with finite values only. -/
theorem finite_of_map {β : Type} {f : β → Exact} {xs : List β} {zs : List ℝ}
    (h : xs.map f = zs.map fin) {x : β} (hx : x ∈ xs) : ∃ z, f x = fin z := by
  have hvalue : f x ∈ zs.map fin := h ▸ List.mem_map_of_mem hx
  obtain ⟨z, -, hz⟩ := List.mem_map.1 hvalue
  exact ⟨z, hz.symm⟩

section

variable {w z : ℝ} {n : Bool}

theorem weigh_inf (hw : 0 < w) (n : Bool) : fin w * inf n = inf n := by
  change scaled n w = inf n
  rw [scaled, if_neg hw.ne', decide_eq_false hw.not_gt, Bool.bne_false]

theorem inf_div (hw : 0 < w) (n : Bool) : inf n / fin w = inf n := by
  change inf (n != decide (w < 0)) = inf n
  rw [decide_eq_false hw.not_gt, Bool.bne_false]

/-- A product with an infinity is not finite. -/
theorem mul_inf_ne_fin (a : Exact) (n : Bool) (z : ℝ) : a * inf n ≠ fin z := by
  change Exact.mul a (inf n) ≠ fin z
  cases a with
  | fin x =>
    rw [Exact.mul, scaled]
    split_ifs <;> simp
  | inf m => simp [Exact.mul]
  | nan => simp [Exact.mul]

/-- Only finite numbers have finite products with a positive weight. -/
theorem finite_of_weigh (hw : 0 < w) (h : fin w * a = fin z) : ∃ x, a = fin x := by
  cases a with
  | fin x => exact ⟨x, rfl⟩
  | inf m =>
    rw [weigh_inf hw] at h
    exact nomatch h
  | nan =>
    rw [mul_nan] at h
    exact nomatch h

theorem infinite_of_weigh (hw : 0 < w) (h : fin w * a = inf n) : a = inf n := by
  cases a with
  | fin x => exact nomatch h
  | inf m => rwa [weigh_inf hw] at h
  | nan =>
    rw [mul_nan] at h
    exact nomatch h

end

end Exact

/-! ## Means -/

/-- The mean of finite numbers with weights. -/
theorem real_mean_within {qs : List (ℝ × ℝ)} (hne : qs ≠ []) (hpos : ∀ q ∈ qs, 0 < q.1) :
    Within (qs.map fun q => .fin q.2)
      (.fin ((qs.map fun q => q.1 * q.2).sum / (qs.map (·.1)).sum)) := by
  have hnone : .nan ∉ qs.map fun q => Exact.fin q.2 := by simp
  have htotal : 0 < (qs.map (·.1)).sum :=
    List.sum_pos _ (List.forall_mem_map.2 hpos) (by simpa using hne)
  obtain ⟨_, hlow, hleast⟩ := Within.exists_least (by simpa using hne) hnone
  obtain ⟨_, hhigh, hgreatest⟩ := Within.exists_greatest (by simpa using hne) hnone
  obtain ⟨l, hl, rfl⟩ := List.mem_map.1 hlow
  obtain ⟨h, hh, rfl⟩ := List.mem_map.1 hhigh
  rw [List.forall_mem_map] at hleast hgreatest
  have hall : ∀ x ∈ qs.map fun q => Exact.fin q.2, .fin l.2 ≤ x ∧ x ≤ .fin h.2 :=
    List.forall_mem_map.2 fun q hq => ⟨hleast q hq, hgreatest q hq⟩
  refine ⟨_, hlow, _, hhigh, hall, ?_, ?_⟩
  · rw [Exact.fin_le, le_div_iff₀ htotal, ← List.sum_map_mul_left]
    refine List.sum_le_sum fun q hq => ?_
    rw [mul_comm]
    exact mul_le_mul_of_nonneg_left (hleast q hq) (hpos q hq).le
  · rw [Exact.fin_le, div_le_iff₀ htotal, ← List.sum_map_mul_left]
    refine List.sum_le_sum fun q hq => ?_
    rw [mul_comm h.2]
    exact mul_le_mul_of_nonneg_left (hgreatest q hq) (hpos q hq).le

/-- Pairs whose second numbers are all finite. -/
theorem exists_map_pairs {β : Type} {ps : List (β × Exact)} (h : ∀ p ∈ ps, ∃ x, p.2 = .fin x) :
    ∃ qs : List (β × ℝ), ps = qs.map fun q => (q.1, .fin q.2) := by
  induction ps with
  | nil => exact ⟨[], rfl⟩
  | cons p ps ih =>
    obtain ⟨⟨x, hx⟩, hps⟩ := List.forall_mem_cons.1 h
    obtain ⟨qs, rfl⟩ := ih hps
    exact ⟨(p.1, x) :: qs, congrArg (· :: _) (Prod.ext rfl hx)⟩

/-- **A mean lies between its numbers.** The weights are positive, and the mean is available. -/
theorem mean_within (ps : List (ℝ × Exact)) (hne : ps ≠ []) (hpos : ∀ p ∈ ps, 0 < p.1)
    (hmean : Arith.sum (ps.map fun p => .fin p.1 * p.2) / .fin (ps.map (·.1)).sum ≠ Exact.nan) :
    Within (ps.map (·.2))
      (Arith.sum (ps.map fun p => .fin p.1 * p.2) / .fin (ps.map (·.1)).sum) := by
  have htotal : 0 < (ps.map (·.1)).sum :=
    List.sum_pos _ (List.forall_mem_map.2 hpos) (by simpa using hne)
  have hsum : Arith.sum (ps.map fun p => .fin p.1 * p.2) ≠ Exact.nan := fun hsum =>
    hmean (by rw [hsum, Exact.nan_div])
  rcases Exact.sum_cases hsum with ⟨zs, hzs⟩ | ⟨n, hmem, hinf⟩
  · have hfinite : ∀ p ∈ ps, ∃ x, p.2 = .fin x := by
      intro p hp
      obtain ⟨z, hz⟩ := Exact.finite_of_map hzs hp
      exact Exact.finite_of_weigh (hpos p hp) hz
    obtain ⟨qs, rfl⟩ := exists_map_pairs hfinite
    have hproducts : (qs.map fun q => Exact.fin q.1 * .fin q.2) =
        (qs.map fun q => q.1 * q.2).map .fin := by
      rw [List.map_map]
      rfl
    simp only [List.map_map, Function.comp_def] at htotal ⊢
    rw [hproducts, Exact.sum_fin, Exact.fin_div _ htotal.ne']
    rw [List.forall_mem_map] at hpos
    exact real_mean_within (fun h => hne (h ▸ rfl)) hpos
  · obtain ⟨p, hp, hterm⟩ := List.mem_map.1 hmem
    have hvalue : p.2 = .inf n := Exact.infinite_of_weigh (hpos p hp) hterm
    have hnone : .nan ∉ ps.map (·.2) := by
      intro hnan
      obtain ⟨q, hq, hq'⟩ := List.mem_map.1 hnan
      refine Exact.nan_not_mem_of_sum hsum (List.mem_map.2 ⟨q, hq, ?_⟩)
      rw [hq', Exact.mul_nan]
    rw [hinf, Exact.inf_div htotal]
    exact .of_mem hnone (List.mem_map.2 ⟨p, hp, hvalue⟩)

/-- The mean that weighs all numbers alike. -/
theorem plain_mean_within {xs : List Exact} (hne : xs ≠ [])
    (hmean : Arith.sum xs / .fin xs.length ≠ Exact.nan) :
    Within xs (Arith.sum xs / .fin xs.length) := by
  have hweighted : ((xs.map fun x => ((1 : ℝ), x)).map fun p => .fin p.1 * p.2) = xs := by
    simp [Function.comp_def]
  have htotal : ((xs.map fun x => ((1 : ℝ), x)).map (·.1)).sum = xs.length := by
    simp [Function.comp_def]
  have hvalues : (xs.map fun x => ((1 : ℝ), x)).map (·.2) = xs := by
    simp [Function.comp_def]
  have hwithin := mean_within (xs.map fun x => ((1 : ℝ), x)) (by simpa using hne) (by simp)
  rw [hweighted, htotal, hvalues] at hwithin
  exact hwithin hmean

/-- A step of some share from one number to another. -/
theorem blend_within {x before : Exact} {w : ℝ} (hpos : 0 < w) (hle : w ≤ 1)
    (hblend : x * .fin w + before * (1 - .fin w) ≠ .nan) :
    Within [x, before] (x * .fin w + before * (1 - .fin w)) := by
  have hrest : (1 : Exact) - .fin w = .fin (1 - w) := by
    rw [Exact.numeral_eq, Exact.fin_sub, Nat.cast_one]
  rw [hrest, Exact.mul_comm x, Exact.mul_comm before] at hblend ⊢
  rcases hle.lt_or_eq with hlt | rfl
  · have hwithin := mean_within [(w, x), (1 - w, before)] (by simp)
      (by simpa [hpos] using hlt)
    simpa [Exact.sum_cons] using hwithin (by simpa [Exact.sum_cons] using hblend)
  · rw [sub_self] at hblend ⊢
    cases before with
    | fin b =>
      rw [Exact.fin_mul, zero_mul, Exact.one_mul, Exact.add_zero] at hblend ⊢
      exact .of_mem (by simp [hblend.symm]) List.mem_cons_self
    | inf n =>
      have hnone : Exact.fin 0 * .inf n = .nan := if_pos rfl
      rw [hnone, Exact.add_nan] at hblend
      exact absurd rfl hblend
    | nan =>
      rw [Exact.mul_nan, Exact.add_nan] at hblend
      exact absurd rfl hblend

end BarScript
