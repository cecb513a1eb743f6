import Mathlib
import BarScript.Indicator.Extreme
import BarScript.Proofs.Between
import BarScript.Proofs.TrendLine
import BarScript.Proofs.WarmUp

/-!
# Averages stay between their inputs

Every available result of an average lies between the least and the greatest of the numbers that it
is an average of (`averages_between`). For the averages of a window these are the numbers of the
trailing window. The averages that move by a share of the distance start with the mean of the first
inputs and stay between all that they have seen (`SmoothedState.Between.next`), through gaps of any
length; the average true range does so with the true ranges, which are not negative.
-/

namespace BarScript

/-! ## Windows -/

/-- A number lies between the least and the greatest of the `n` elements that end at a position. -/
def WithinWindow (xs : List Exact) (n i : Nat) (y : Exact) : Prop :=
  (newest n (xs.take (i + 1))).length = n ∧ Within (newest n (xs.take (i + 1))) y

section

variable {xs : List Exact} {n i : Nat} {y : Exact}

/-- An available window is complete. -/
theorem window?_some {w : List Exact} (h : window? xs n i = some w) :
    w ≠ [] ∧ w.length = n ∧ .nan ∉ w ∧ w = newest n (xs.take (i + 1)) := by
  have hn : 1 ≤ n := by
    refine Nat.pos_of_ne_zero fun hzero => ?_
    rw [window?, if_pos (.inl hzero)] at h
    exact Option.some_ne_none w h.symm
  have hi : i < xs.length := by
    by_contra hout
    rw [window?, if_pos (.inr (.inr (not_lt.1 hout)))] at h
    exact Option.some_ne_none w h.symm
  rw [window?_eq_newest xs hn hi] at h
  split_ifs at h with hgap
  obtain rfl := Option.some.inj h
  obtain ⟨hfull, hnone⟩ := not_or.1 hgap
  have hmost : (newest n (xs.take (i + 1))).length ≤ n := length_newest_le n _
  have hlength : (newest n (xs.take (i + 1))).length = n := by omega
  refine ⟨List.ne_nil_of_length_pos (by omega), hlength, fun hmem => ?_, rfl⟩
  exact hnone (List.any_eq_true.2 ⟨.nan, hmem, rfl⟩)

/-- If a function of windows stays between their elements, then it does so at every position. -/
theorem windowed_between {f : List Exact → Exact}
    (hf : ∀ w, w ≠ [] → w.length = n → .nan ∉ w → f w ≠ .nan → Within w (f w))
    (h : (windowed xs n f)[i]? = some y) (hy : y ≠ .nan) : WithinWindow xs n i y := by
  have hvalue := eq_of_map_range h
  cases hw : window? xs n i with
  | none =>
    rw [hw] at hvalue
    exact absurd hvalue.symm hy
  | some w =>
    rw [hw, Option.map_some, Option.getD_some] at hvalue
    obtain ⟨hne, hlength, hnone, rfl⟩ := window?_some hw
    exact ⟨hlength, hvalue ▸ hf _ hne hlength hnone (hvalue ▸ hy)⟩

theorem sma_between (h : (sma xs n)[i]? = some y) (hy : y ≠ .nan) : WithinWindow xs n i y := by
  rw [sma_eq_windowed] at h
  refine windowed_between (fun w hne hlength _ hmean => ?_) h hy
  rw [Exact.ofCount_eq, ← hlength] at hmean ⊢
  exact plain_mean_within hne hmean

/-- The weights of `wma`. -/
theorem sum_weights {β : Type} (w : List β) (k : Nat) :
    ((w.zipIdx k).map fun p => (p.2 : ℝ) + 1).sum =
      w.length * k + w.length * (w.length + 1) / 2 := by
  induction w generalizing k with
  | nil => simp
  | cons v w ih =>
    rw [List.zipIdx_cons, List.map_cons, List.sum_cons, ih, List.length_cons]
    push_cast
    ring

theorem weightedMean_within {w : List Exact} (hne : w ≠ []) (h : weightedMean w ≠ .nan) :
    Within w (weightedMean w) := by
  have hmean := mean_within (w.zipIdx.map fun p => ((p.2 : ℝ) + 1, p.1)) (by simpa using hne)
    (List.forall_mem_map.2 fun p _ => Nat.cast_add_one_pos p.2)
  have hvalues : (w.zipIdx.map fun p => p.1) = w := List.zipIdx_map_fst 0 w
  have hdivisor : Exact.fin (w.length * (w.length + 1) : ℕ) / 2 =
      .fin (w.length * (w.length + 1) / 2) := by
    rw [Exact.numeral_eq, Exact.fin_div _ (by norm_num)]
    push_cast
    rfl
  simp only [List.map_map, Function.comp_def, sum_weights, hvalues, Nat.cast_zero, mul_zero,
    zero_add] at hmean
  simp only [weightedMean, Exact.ofCount_eq, hdivisor, Nat.cast_add, Nat.cast_one] at h ⊢
  exact hmean h

theorem wma_between (h : (wma xs n)[i]? = some y) (hy : y ≠ .nan) : WithinWindow xs n i y :=
  windowed_between (fun _ hne _ _ hmean => weightedMean_within hne hmean) h hy

theorem swma_between (h : (swma xs)[i]? = some y) (hy : y ≠ .nan) : WithinWindow xs 4 i y := by
  refine windowed_between (fun w _ hlength _ hmean => ?_) h hy
  match w, hlength with
  | [a, b, c, d], _ =>
    have hwithin := mean_within [(1, a), (2, b), (2, c), (1, d)] (by simp) (by simp)
    have htotal : (1 : ℝ) + (2 + (2 + 1)) = 6 := by norm_num
    simp only [List.map_cons, List.map_nil, List.sum_cons, List.sum_nil, Exact.sum_cons,
      Exact.sum_nil, Exact.one_mul, Exact.add_zero, add_zero, htotal] at hwithin
    simp only [Exact.numeral_eq, Nat.cast_ofNat, Exact.add_assoc] at hmean ⊢
    exact hwithin hmean

/-- The middle value is one of the numbers, or the mean of two of them. -/
theorem windowMedian_within {w : List Exact} (hne : w ≠ []) (hnone : .nan ∉ w)
    (h : windowMedian w ≠ .nan) : Within w (windowMedian w) := by
  have hperm : (w.mergeSort Arith.sortsBefore).Perm w := List.mergeSort_perm _ _
  have hpos : 0 < w.length := List.length_pos_iff.2 hne
  have hmem (k : Nat) (hk : k < w.length) :
      (w.mergeSort Arith.sortsBefore).getD k Arith.nan ∈ w := by
    rw [List.getD_eq_getElem _ _ (hperm.length_eq.symm ▸ hk)]
    exact hperm.mem_iff.1 (List.getElem_mem _)
  have hupper := hmem (w.length / 2) (by omega)
  have hlower := hmem (w.length / 2 - 1) (by omega)
  unfold windowMedian at h ⊢
  dsimp only at h ⊢
  rw [hperm.length_eq] at h ⊢
  generalize (w.mergeSort Arith.sortsBefore).getD (w.length / 2) Arith.nan = upper at *
  generalize (w.mergeSort Arith.sortsBefore).getD (w.length / 2 - 1) Arith.nan = lower at *
  split_ifs at h ⊢ with heven
  · have hmean := plain_mean_within (List.cons_ne_nil lower [upper])
    simp only [Exact.sum_cons, Exact.sum_nil, Exact.add_zero, List.length_cons, List.length_nil,
      Nat.reduceAdd, ← Exact.numeral_eq] at hmean
    refine (hmean h).mono hnone (List.cons_subset.2 ⟨hlower, ?_⟩)
    exact List.cons_subset.2 ⟨hupper, List.nil_subset w⟩
  · exact .of_mem hnone hupper

theorem median_between (h : (median xs n)[i]? = some y) (hy : y ≠ .nan) : WithinWindow xs n i y :=
  windowed_between (fun _ hne _ hnone hmean => windowMedian_within hne hnone hmean) h hy

/-- A mean with volumes that are all positive. An infinite volume leaves no mean. -/
theorem volume_mean_within (qs : List (Exact × Exact)) (hne : qs ≠ []) (hpos : ∀ q ∈ qs, 0 < q.2)
    (h : Arith.sum (qs.map fun q => q.1 * q.2) / Arith.sum (qs.map (·.2)) ≠ .nan) :
    Within (qs.map (·.1)) (Arith.sum (qs.map fun q => q.1 * q.2) / Arith.sum (qs.map (·.2))) := by
  have hvolume : Arith.sum (qs.map (·.2)) ≠ .nan := fun hsum => h (by rw [hsum, Exact.div_nan])
  have hprice : Arith.sum (qs.map fun q => q.1 * q.2) ≠ .nan := fun hsum =>
    h (by rw [hsum, Exact.nan_div])
  rcases Exact.sum_cases hvolume with ⟨ws, hws⟩ | ⟨n, hmem, hsum⟩
  · obtain ⟨rs, rfl⟩ := exists_map_pairs fun q => Exact.finite_of_map hws
    have hpos' : ∀ r ∈ rs, 0 < r.2 := by
      intro r hr
      have hlt := hpos _ (List.mem_map_of_mem hr)
      rwa [Exact.numeral_eq, Exact.fin_lt, Nat.cast_zero] at hlt
    have hmean := mean_within (rs.map fun r => (r.2, r.1)) (by simpa using hne)
      (List.forall_mem_map.2 hpos')
    have hvolumes : (rs.map fun r => Exact.fin r.2) = (rs.map (·.2)).map .fin := by
      rw [List.map_map]
      rfl
    simp only [List.map_map, Function.comp_def, Exact.mul_comm (.fin _)] at hmean h ⊢
    rw [hvolumes, Exact.sum_fin] at h ⊢
    exact hmean h
  · -- the products with an infinite volume are not finite, and neither is their sum
    obtain ⟨q, hq, hinf⟩ := List.mem_map.1 hmem
    rcases Exact.sum_cases hprice with ⟨zs, hzs⟩ | ⟨m, -, hm⟩
    · obtain ⟨z, hz⟩ := Exact.finite_of_map hzs hq
      rw [hinf] at hz
      exact absurd hz (Exact.mul_inf_ne_fin _ _ _)
    · rw [hm, hsum] at h
      exact absurd rfl h

theorem vwma_between {volume : List Exact}
    (hpos : ∀ v ∈ (aligned xs volume).2, v ≠ .nan → 0 < v)
    (h : (vwma xs volume n)[i]? = some y) (hy : y ≠ .nan) :
    WithinWindow (aligned xs volume).1 n i y := by
  rw [vwma] at h
  generalize aligned xs volume = pv at *
  obtain ⟨ps, vs⟩ := pv
  dsimp only at h hpos ⊢
  have hvalue := eq_of_map_range h
  split at hvalue
  next p v hp hv =>
    obtain ⟨hne, hlength, -, hp⟩ := window?_some hp
    obtain ⟨-, hlength', hnone, hv⟩ := window?_some hv
    have hpositive : ∀ x ∈ v, 0 < x := by
      intro x hx
      refine hpos x ?_ (ne_of_mem_of_not_mem hx hnone)
      rw [hv, newest] at hx
      exact List.mem_of_mem_take (List.mem_of_mem_drop hx)
    rw [WithinWindow, ← hp]
    refine ⟨hlength, ?_⟩
    have hzip : (p.zip v).map (·.1) = p := List.map_fst_zip (hlength.trans hlength'.symm).le
    have hzip' : (p.zip v).map (·.2) = v := List.map_snd_zip (hlength'.trans hlength.symm).le
    have hproducts : (p.zip v).map (fun q => q.1 * q.2) = List.zipWith (· * ·) p v :=
      List.map_zip_eq_zipWith
    have hne' : p.zip v ≠ [] := fun hnil => hne (by rw [← hzip, hnil, List.map_nil])
    have hmean := volume_mean_within (p.zip v) hne'
      fun q hq => hpositive q.2 (hzip' ▸ List.mem_map_of_mem hq)
    rw [hzip, hzip', hproducts, hvalue] at hmean
    exact hmean hy
  next => exact absurd hvalue.symm hy

end

/-! ## Averages that move by a share of the distance -/

/-- A share of a distance: all of it, or less, but not nothing. -/
def Share (weight : Exact) : Prop := ∃ w : ℝ, weight = .fin w ∧ 0 < w ∧ w ≤ 1

namespace SmoothedState

/-- The state after some available inputs: their sum until there are enough of them, and then a
value between them. -/
structure Between (s : SmoothedState Exact) (seen : List Exact) : Prop where
  weight : Share s.weight
  seeding : s.value = none → s.seedSum = Arith.sum seen ∧ s.seedCount = seen.length ∧
    seen.length < s.period
  value : ∀ v ∈ s.value, v ≠ .nan → Within seen v

variable {s : SmoothedState Exact} {seen : List Exact} {x : Exact}

theorem Between.of_value {value : Exact} (hweight : Share s.weight) (hs : s.value = some value)
    (hvalue : value ≠ .nan → Within seen value) : s.Between seen where
  weight := hweight
  seeding hnone := absurd (hs.symm.trans hnone) (Option.some_ne_none value)
  value _ hv := Option.some.inj (hs.symm.trans hv) ▸ hvalue

/-- An input moves the value toward itself. -/
theorem Between.blend (h : s.Between seen) (hnone : .nan ∉ seen ++ [x]) {before : Exact}
    (hbefore : s.value = some before)
    (hne : x * s.weight + before * (1 - s.weight) ≠ .nan) :
    Within (seen ++ [x]) (x * s.weight + before * (1 - s.weight)) := by
  obtain ⟨w, hw, hpos, hle⟩ := h.weight
  rw [hw] at hne ⊢
  have hbefore' : before ≠ .nan := by
    rintro rfl
    exact hne (by rw [Exact.nan_mul, Exact.add_nan])
  have hx : Within (seen ++ [x]) x := .of_mem hnone (List.mem_append_right _ List.mem_cons_self)
  have hold : Within (seen ++ [x]) before :=
    (h.value before hbefore hbefore').mono hnone (List.subset_append_left _ _)
  exact (blend_within hpos hle hne).trans
    (List.forall_mem_cons.2 ⟨hx, List.forall_mem_singleton.2 hold⟩)

/-- An input is added to the sum; the mean of as many as the period is the first value. -/
theorem Between.seed (h : s.Between seen) (hseed : s.value = none) :
    ((s.seed x).1 ≠ .nan → Within (seen ++ [x]) (s.seed x).1) ∧
      (s.seed x).2.Between (seen ++ [x]) := by
  obtain ⟨hsum, hcount, hlt⟩ := h.seeding hseed
  have hsum' : s.seedSum + x = Arith.sum (seen ++ [x]) := by rw [hsum, sum_concat]
  have hlength : (seen ++ [x]).length = s.seedCount + 1 := by simp [hcount]
  rw [SmoothedState.seed]
  dsimp only
  split_ifs with hmore
  · refine ⟨absurd rfl, h.weight, fun _ => ⟨hsum', hlength.symm, hlength ▸ hmore⟩, fun v hv => ?_⟩
    exact absurd (hseed.symm.trans hv) (Option.some_ne_none v).symm
  · have hperiod : s.period = (seen ++ [x]).length := by omega
    have hfirst : (s.seedSum + x) / Arith.ofCount s.period ≠ .nan →
        Within (seen ++ [x]) ((s.seedSum + x) / Arith.ofCount s.period) := by
      rw [hsum', Exact.ofCount_eq, hperiod]
      exact plain_mean_within (by simp)
    exact ⟨hfirst, .of_value h.weight rfl hfirst⟩

/-- An available input. The output and the new state are between the inputs and this one. -/
theorem Between.next (h : s.Between seen) (hnone : .nan ∉ seen ++ [x]) (hperiod : s.period ≠ 0) :
    ((s.next x).1 ≠ .nan → Within (seen ++ [x]) (s.next x).1) ∧
      (s.next x).2.Between (seen ++ [x]) := by
  have hx : x ≠ .nan := by
    rintro rfl
    exact hnone (List.mem_append_right _ List.mem_cons_self)
  have hskip : ¬ (s.period = 0 ∨ Arith.isNaN x = true) :=
    not_or.2 ⟨hperiod, mt (Exact.isNaN_iff x).1 hx⟩
  rw [SmoothedState.next, if_neg hskip]
  split
  next before hbefore =>
    have hvalue := h.blend hnone hbefore
    exact ⟨hvalue, .of_value h.weight rfl hvalue⟩
  next hseed => exact h.seed hseed

theorem next_period (s : SmoothedState Exact) (x : Exact) : (s.next x).2.period = s.period := by
  unfold SmoothedState.next SmoothedState.seed
  dsimp only
  split
  · rfl
  · split
    · rfl
    · split <;> rfl

/-- The outputs are between the inputs that have been available up to them. -/
theorem Between.replay (h : s.Between seen) (hnone : .nan ∉ seen) (hperiod : s.period ≠ 0)
    {xs : List Exact} {i : Nat} {y : Exact} (hout : (BarScript.replay s xs)[i]? = some y)
    (hy : y ≠ .nan) : Within (seen ++ available (xs.take (i + 1))) y := by
  induction xs generalizing s seen i with
  | nil => exact nomatch hout
  | cons x xs ih =>
    rw [List.take_succ_cons, available]
    change ((s.next x).1 :: BarScript.replay (s.next x).2 xs)[i]? = some y at hout
    by_cases hx : x = .nan
    · subst hx
      rw [List.filter_cons_of_neg (by simp)]
      rw [next_nan s] at hout
      cases i with
      | zero => exact absurd (Option.some.inj hout).symm hy
      | succ i => exact ih h hnone hperiod hout
    · have hnone' : .nan ∉ seen ++ [x] := by simp [hnone, Ne.symm hx]
      obtain ⟨hvalue, hnext⟩ := h.next hnone' hperiod
      rw [List.filter_cons_of_pos (by simp [(Exact.available_iff x).2 hx])]
      cases i with
      | zero =>
        obtain rfl := Option.some.inj hout
        exact hvalue hy
      | succ i =>
        rw [List.append_cons]
        exact ih hnext hnone' (s.next_period x ▸ hperiod) hout

theorem fresh_between {period : Nat} (hperiod : 1 ≤ period) {weight : Exact}
    (hweight : Share weight) : (fresh period weight).Between [] where
  weight := hweight
  seeding _ := ⟨by rw [fresh, Exact.sum_nil, Exact.numeral_eq, Nat.cast_zero], rfl, hperiod⟩
  value := nofun

/-- Any weight above zero and up to one keeps an average between its inputs. -/
theorem replay_fresh_between {period : Nat} (hperiod : 1 ≤ period) {weight : Exact}
    (hweight : Share weight) {xs : List Exact} {i : Nat} {y : Exact}
    (hout : (BarScript.replay (fresh period weight) xs)[i]? = some y) (hy : y ≠ .nan) :
    Within (available (xs.take (i + 1))) y :=
  (fresh_between hperiod hweight).replay List.not_mem_nil (Nat.ne_of_gt hperiod) hout hy

theorem ema_weight {period : Nat} (hperiod : 1 ≤ period) :
    Share (2 / (Arith.ofCount period + 1)) := by
  have hperiod' : (1 : ℝ) ≤ period := by exact_mod_cast hperiod
  refine ⟨2 / (period + 1), ?_, by positivity, ?_⟩
  · rw [Exact.ofCount_eq, Exact.numeral_eq, Exact.numeral_eq, Exact.fin_add,
      Exact.fin_div _ (by positivity)]
    norm_num
  · rw [div_le_one (by positivity)]
    linarith

theorem rma_weight (period : Nat) : Share (1 / Arith.ofCount (Nat.max period 1)) := by
  have hmax : (1 : ℝ) ≤ (Nat.max period 1 : ℕ) := by exact_mod_cast Nat.le_max_right period 1
  refine ⟨1 / (Nat.max period 1 : ℕ), ?_, by positivity, ?_⟩
  · rw [Exact.ofCount_eq, Exact.numeral_eq, Exact.fin_div _ (by positivity), Nat.cast_one]
  · rw [div_le_one (by positivity)]
    exact hmax

end SmoothedState

section

variable {xs : List Exact} {n i : Nat} {y : Exact}

theorem ema_between (hn : 1 ≤ n) (h : (ema xs n)[i]? = some y) (hy : y ≠ .nan) :
    Within (available (xs.take (i + 1))) y :=
  SmoothedState.replay_fresh_between hn (SmoothedState.ema_weight hn) h hy

theorem rma_between (hn : 1 ≤ n) (h : (rma xs n)[i]? = some y) (hy : y ≠ .nan) :
    Within (available (xs.take (i + 1))) y :=
  SmoothedState.replay_fresh_between hn (SmoothedState.rma_weight n) h hy

end

/-! ## Average true ranges -/

/-- The true ranges of the bars whose prices are available, each with the close of the one
before. -/
def Reach.ranges {α : Type} [Arith α] (previousClose : Option α) : List (Reach α) → List α
  | [] => []
  | r :: bars =>
    if r.hasNaN then ranges previousClose bars
    else r.trueRange previousClose true :: ranges (some r.close) bars

/-- An available average range is the newest average of the true ranges. -/
theorem RangeState.replay_eq_ranges {s : RangeState Exact} {bars : List (Reach Exact)} {i : Nat}
    {y : Exact} (hout : (replay s bars)[i]? = some y) (hy : y ≠ .nan) :
    (replay s.average (Reach.ranges s.previousClose (bars.take (i + 1)))).getLast? = some y := by
  induction bars generalizing s i with
  | nil => exact nomatch hout
  | cons r bars ih =>
    change ((s.next r).1 :: replay (s.next r).2 bars)[i]? = some y at hout
    rw [List.take_succ_cons, Reach.ranges]
    by_cases hr : r.hasNaN = true
    · rw [if_pos hr]
      rw [RangeState.next, if_pos hr] at hout
      cases i with
      | zero => exact absurd (Option.some.inj hout).symm hy
      | succ i => exact ih hout
    · rw [if_neg hr]
      rw [RangeState.next, if_neg hr] at hout
      change ((s.average.next _).1 :: replay (s.average.next _).2 _).getLast? = some y
      cases i with
      | zero => exact hout
      | succ i =>
        have hrest : (replay (s.average.next (r.trueRange s.previousClose true)).2
            (Reach.ranges (some r.close) (bars.take (i + 1)))).getLast? = some y := ih hout
        rw [List.getLast?_cons, hrest, Option.getD_some]

/-- The average of the true ranges is between them. -/
theorem atr_between_ranges {high low close : List Exact} {n i : Nat} {y : Exact} (hn : 1 ≤ n)
    (h : (atr high low close n)[i]? = some y) (hy : y ≠ .nan) :
    Within (available (Reach.ranges none ((Reach.zip high low close).take (i + 1)))) y := by
  have hlast := RangeState.replay_eq_ranges h hy
  rw [List.getLast?_eq_getElem?, length_replay] at hlast
  have hwithin := SmoothedState.replay_fresh_between hn (SmoothedState.rma_weight n) hlast hy
  rwa [List.take_of_length_le (by omega)] at hwithin

theorem Exact.le_of_nonneg {a : Exact} (h : a.Nonneg) (ha : a ≠ nan) : 0 ≤ a := by
  rw [Exact.numeral_eq, Nat.cast_zero]
  cases a with
  | fin x => exact h
  | inf n => exact h
  | nan => exact absurd rfl ha

theorem Reach.ranges_nonneg {previousClose : Option Exact} {bars : List (Reach Exact)}
    (hbars : ∀ r ∈ bars, r.hasNaN = false → r.low ≤ r.high) :
    ∀ x ∈ Reach.ranges previousClose bars, x.Nonneg := by
  fun_induction Reach.ranges previousClose bars with
  | case1 => exact nofun
  | case2 previousClose r bars hr ih => exact ih (List.forall_mem_cons.1 hbars).2
  | case3 previousClose r bars hr ih =>
    obtain ⟨hle, hbars⟩ := List.forall_mem_cons.1 hbars
    refine List.forall_mem_cons.2 ⟨?_, ih hbars⟩
    exact Reach.trueRange_nonneg (hle (Bool.not_eq_true _ ▸ hr)) _

theorem atr_between {high low close : List Exact} {n i : Nat} {y : Exact} (hn : 1 ≤ n)
    (hbars : ∀ r ∈ Reach.zip high low close, r.hasNaN = false → r.low ≤ r.high)
    (h : (atr high low close n)[i]? = some y) (hy : y ≠ .nan) :
    0 ≤ y ∧ Within (available (Reach.ranges none ((Reach.zip high low close).take (i + 1)))) y := by
  have hwithin := atr_between_ranges hn h hy
  refine ⟨?_, hwithin⟩
  obtain ⟨low', hlow, -, -, -, hle, -⟩ := hwithin
  have hnonneg : low'.Nonneg := Reach.ranges_nonneg
    (fun r hr => hbars r (List.mem_of_mem_take hr)) low' (List.mem_of_mem_filter hlow)
  exact Exact.le_trans (Exact.le_of_nonneg hnonneg (Exact.ne_nan_of_le hle).1) hle

/-! ## All averages -/

/-- **Averages stay between their inputs.** The numbers and the volumes may have gaps and may be
infinite; only a result that is available is between others. -/
theorem averages_between (xs : List Exact) {n : Nat} (hn : 1 ≤ n) {i : Nat} {y : Exact}
    (hy : y ≠ .nan) :
    ((sma xs n)[i]? = some y → WithinWindow xs n i y) ∧
    ((wma xs n)[i]? = some y → WithinWindow xs n i y) ∧
    ((swma xs)[i]? = some y → WithinWindow xs 4 i y) ∧
    ((median xs n)[i]? = some y → WithinWindow xs n i y) ∧
    (∀ volume : List Exact, (∀ v ∈ (aligned xs volume).2, v ≠ .nan → 0 < v) →
      (vwma xs volume n)[i]? = some y → WithinWindow (aligned xs volume).1 n i y) ∧
    ((ema xs n)[i]? = some y → Within (available (xs.take (i + 1))) y) ∧
    ((rma xs n)[i]? = some y → Within (available (xs.take (i + 1))) y) ∧
    ∀ high low close : List Exact,
      (∀ r ∈ Reach.zip high low close, r.hasNaN = false → r.low ≤ r.high) →
      (atr high low close n)[i]? = some y →
      0 ≤ y ∧ Within (available (Reach.ranges none ((Reach.zip high low close).take (i + 1)))) y :=
  ⟨fun h => sma_between h hy, fun h => wma_between h hy, fun h => swma_between h hy,
    fun h => median_between h hy, fun _ hpos h => vwma_between hpos h hy,
    fun h => ema_between hn h hy, fun h => rma_between hn h hy,
    fun _ _ _ hbars h => atr_between hn hbars h hy⟩

/-- A weighted mean after a gap. -/
theorem averages_between_afterGap : 1 ≤ 2 ∧ Exact.fin 3 ≠ .nan ∧
    (wma [.nan, .fin 1, .fin 4] 2)[2]? = some (Exact.fin 3) ∧
    WithinWindow [.nan, .fin 1, .fin 4] 2 2 (.fin 3) := by
  have hvalue : (wma [.nan, .fin 1, .fin 4] 2)[2]? = some (Exact.fin 3) := by
    have hquotient : Exact.fin (1 + (1 + 1) * 4) / (.fin 6 / .fin 2) = .fin 3 := by
      rw [Exact.fin_div _ two_ne_zero, Exact.fin_div _ (by norm_num)]
      norm_num
    rw [wma, windowed_getElem? _ _ (by decide) (by decide)]
    simpa [newest, weightedMean, Exact.sum_cons] using hquotient
  have hy : Exact.fin 3 ≠ .nan := by simp
  obtain ⟨-, hwma, -⟩ := averages_between [.nan, .fin 1, .fin 4] (by decide : 1 ≤ 2) hy
  exact ⟨by decide, hy, hvalue, hwma hvalue⟩

end BarScript
