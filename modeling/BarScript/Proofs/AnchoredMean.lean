import Mathlib
import BarScript.Proofs.Exact
import BarScript.Proofs.Trailing

/-!
# Means since an anchor

The bars of a segment (`since`) are the priced bars from the latest flag on. In exact arithmetic the
running sums of a segment are those of its bars (`Segment.Sums`), whatever flags and gaps came before
(`Segment.Sums.trace`), and the sum of squares gives the deviation of the prices
(`Segment.Sums.deviation_eq`). So the line is the mean price weighted by volume and the bands lie at a
multiple of the deviation (`vwap_anchored`).
-/

namespace BarScript

/-! ## Bars since a flag -/

/-- A price and a volume, where both are available. -/
def priced : Option ℝ × Option ℝ → Option (ℝ × ℝ)
  | (some p, some v) => some (p, v)
  | _ => none

theorem priced_eq_none {b : Option ℝ × Option ℝ} : priced b = none ↔ b.1 = none ∨ b.2 = none := by
  obtain ⟨_ | p, _ | v⟩ := b <;> simp [priced]

/-- The priced bars from the latest flag on, or after some earlier ones as long as there is none. -/
def since (seg : List (ℝ × ℝ)) (bars : List (Bool × Option ℝ × Option ℝ)) : List (ℝ × ℝ) :=
  bars.foldl (fun seg b => (if b.1 then [] else seg) ++ (priced b.2).toList) seg

theorem since_concat (seg : List (ℝ × ℝ)) (bars : List (Bool × Option ℝ × Option ℝ))
    (b : Bool × Option ℝ × Option ℝ) :
    since seg (bars ++ [b]) = (if b.1 then [] else since seg bars) ++ (priced b.2).toList := by
  rw [since, List.foldl_concat]
  rfl

/-- Of the bars up to a position those since the latest flag are the ones from its position on. -/
theorem since_take {bars : List (Bool × Option ℝ × Option ℝ)} {i : Nat} (hi : i < bars.length)
    {flagged : Nat → Prop} [DecidablePred flagged]
    (hflagged : ∀ j (hj : j < bars.length), flagged j ↔ bars[j].1 = true) :
    since [] (bars.take (i + 1)) =
      (((bars.map (·.2)).take (i + 1)).drop (Nat.findGreatest flagged i)).filterMap priced := by
  have hlast (j : Nat) (hj : j < bars.length) : bars.take (j + 1) = bars.take j ++ [bars[j]] :=
    (List.take_concat_get' bars j hj).symm
  induction i with
  | zero =>
    rw [Nat.findGreatest_zero, List.drop_zero, ← List.map_take, hlast 0 hi, since_concat]
    cases hb : priced bars[0].2 <;> simp [since, hb]
  | succ i ih =>
    have hsegment := ih (by omega)
    have hlength : ((bars.take (i + 1)).map (·.2)).length = i + 1 := by
      rw [List.length_map, List.length_take]
      omega
    rw [← List.map_take] at hsegment
    rw [hlast _ hi, since_concat, ← List.map_take, hlast _ hi, Nat.findGreatest_succ,
      List.map_append]
    by_cases hflag : bars[i + 1].1 = true
    · rw [if_pos hflag, if_pos ((hflagged _ hi).2 hflag), List.drop_append_of_le_length hlength.ge,
        List.drop_of_length_le hlength.le]
      cases hb : priced bars[i + 1].2 <;> simp [hb]
    · have hstart := Nat.findGreatest_le (P := flagged) i
      rw [if_neg hflag, if_neg (mt (hflagged _ hi).1 hflag),
        List.drop_append_of_le_length (by omega), List.filterMap_append, hsegment]
      cases hb : priced bars[i + 1].2 <;> simp [hb]

/-! ## Means and deviations -/

/-- The mean price weighted by volume. -/
noncomputable def meanPrice (seg : List (ℝ × ℝ)) : ℝ :=
  (seg.map fun b => b.1 * b.2).sum / (seg.map (·.2)).sum

/-- The standard deviation of all the prices there are. -/
noncomputable def deviation (prices : List ℝ) : ℝ :=
  let mean := prices.sum / prices.length
  √((prices.map fun p => (p - mean) ^ 2).sum / prices.length)

theorem deviation_nonneg (prices : List ℝ) : 0 ≤ deviation prices := Real.sqrt_nonneg _

theorem sum_sq_sub (prices : List ℝ) (c : ℝ) :
    (prices.map fun p => (p - c) ^ 2).sum =
      (prices.map fun p => p * p).sum - 2 * c * prices.sum + prices.length * c ^ 2 := by
  induction prices with
  | nil => simp
  | cons p prices ih =>
    rw [List.map_cons, List.sum_cons, ih, List.map_cons, List.sum_cons, List.sum_cons,
      List.length_cons]
    push_cast
    ring

/-- The mean of the squares less the square of the mean is what the deviation is the root of. -/
theorem deviation_eq {prices : List ℝ} (h : prices ≠ []) :
    deviation prices = √((prices.map fun p => p * p).sum / prices.length -
      prices.sum / prices.length * (prices.sum / prices.length)) := by
  have hne : (prices.length : ℝ) ≠ 0 := by
    rw [Nat.cast_ne_zero]
    exact mt List.length_eq_zero_iff.1 h
  rw [deviation, sum_sq_sub]
  congr 1
  field_simp
  ring

/-- A mean with weights that are not negative lies among the prices. -/
theorem meanPrice_mem {seg : List (ℝ × ℝ)} (hvolume : ∀ b ∈ seg, 0 ≤ b.2)
    (hsum : (seg.map (·.2)).sum ≠ 0) :
    (seg.map (·.1)).minimum ≤ meanPrice seg ∧
      (meanPrice seg : WithBot ℝ) ≤ (seg.map (·.1)).maximum := by
  have hpos : 0 < (seg.map (·.2)).sum :=
    (List.sum_nonneg (List.forall_mem_map.2 hvolume)).lt_of_ne' hsum
  have hprices : seg.map (·.1) ≠ [] := by
    rintro h
    rw [List.map_eq_nil_iff] at h
    exact hsum (by rw [h]; rfl)
  obtain ⟨low, hlow⟩ := WithTop.ne_top_iff_exists.1 (List.minimum_ne_top_of_ne_nil hprices)
  obtain ⟨high, hhigh⟩ := WithBot.ne_bot_iff_exists.1 (List.maximum_ne_bot_of_ne_nil hprices)
  rw [← hlow, ← hhigh, WithTop.coe_le_coe, WithBot.coe_le_coe, meanPrice, le_div_iff₀ hpos,
    div_le_iff₀ hpos, ← List.sum_map_mul_left, ← List.sum_map_mul_left]
  constructor
  · refine List.sum_le_sum fun b hb => mul_le_mul_of_nonneg_right ?_ (hvolume b hb)
    exact WithTop.coe_le_coe.1 (hlow ▸ List.minimum_le_of_mem' (List.mem_map_of_mem hb))
  · refine List.sum_le_sum fun b hb => mul_le_mul_of_nonneg_right ?_ (hvolume b hb)
    exact WithBot.coe_le_coe.1 (hhigh ▸ List.le_maximum_of_mem' (List.mem_map_of_mem hb))

/-! ## Running sums -/

namespace Segment

/-- The sums of some bars. -/
structure Sums (s : Segment Exact) (seg : List (ℝ × ℝ)) : Prop where
  volume : s.volume = .fin (seg.map (·.2)).sum
  volumePrice : s.volumePrice = .fin (seg.map fun b => b.1 * b.2).sum
  count : s.count = seg.length
  sum : s.sum = .fin (seg.map (·.1)).sum
  sumOfSquares : s.sumOfSquares = .fin (seg.map fun b => b.1 * b.1).sum

theorem sums_empty : (empty : Segment Exact).Sums [] := by
  have hzero : (0 : Exact) = .fin ([] : List ℝ).sum := by
    rw [Exact.numeral_eq, Nat.cast_zero, List.sum_nil]
  exact ⟨hzero, hzero, rfl, hzero, hzero⟩

variable {s : Segment Exact} {seg : List (ℝ × ℝ)}

theorem Sums.add (h : s.Sums seg) (p v : ℝ) : (s.add (.fin p) (.fin v)).Sums (seg ++ [(p, v)]) := by
  obtain ⟨hvolume, hvolumePrice, hcount, hsum, hsquares⟩ := h
  constructor <;>
    simp [Segment.add, hvolume, hvolumePrice, hcount, hsum, hsquares]

theorem Sums.mean_eq (h : s.Sums seg) :
    s.mean = if (seg.map (·.2)).sum = 0 then Exact.nan else .fin (meanPrice seg) := by
  rw [mean, h.volume, h.volumePrice, Exact.numeral_eq, Nat.cast_zero]
  simp only [Exact.fin_beq, Exact.nan_eq]
  split_ifs with hzero
  · rfl
  · rw [Exact.fin_div _ hzero, meanPrice]

theorem Sums.deviation_eq (h : s.Sums seg) (hne : seg ≠ []) :
    s.deviation = .fin (BarScript.deviation (seg.map (·.1))) := by
  have hcount : (seg.length : ℝ) ≠ 0 := by
    rw [Nat.cast_ne_zero]
    exact mt List.length_eq_zero_iff.1 hne
  have hroot (x : ℝ) : √(max x 0) = √x := by
    rcases le_total 0 x with hx | hx
    · rw [max_eq_left hx]
    · rw [max_eq_right hx, Real.sqrt_zero, Real.sqrt_eq_zero_of_nonpos hx]
  unfold Segment.deviation
  simp only [h.count, h.sum, h.sumOfSquares, Exact.ofCount_eq, Exact.fin_div _ hcount,
    Exact.fin_mul, Exact.fin_sub, Exact.numeral_eq, Nat.cast_zero, Exact.max_fin]
  rw [Exact.sqrt_fin (le_max_right _ _), hroot, BarScript.deviation_eq (mt List.map_eq_nil_iff.1 hne),
    List.length_map, List.map_map]
  rfl

/-- **The line and its bands** of a segment whose volumes sum up to something. -/
theorem Sums.bands_eq (h : s.Sums seg) (hsum : (seg.map (·.2)).sum ≠ 0) (multiple : ℝ) :
    let width := multiple * BarScript.deviation (seg.map (·.1))
    s.mean = .fin (meanPrice seg) ∧
      s.mean + Exact.fin multiple * s.deviation = .fin (meanPrice seg + width) ∧
      s.mean - Exact.fin multiple * s.deviation = .fin (meanPrice seg - width) := by
  intro width
  have hne : seg ≠ [] := by
    rintro rfl
    exact hsum rfl
  have hmean : s.mean = .fin (meanPrice seg) := h.mean_eq.trans (if_neg hsum)
  rw [hmean, h.deviation_eq hne, Exact.fin_mul]
  exact ⟨rfl, Exact.fin_add _ _, Exact.fin_sub _ _⟩

/-- A bar in exact arithmetic. -/
def exactBar : Bool × Option ℝ × Option ℝ → Bool × Exact × Exact :=
  Prod.map id (Prod.map .ofOption .ofOption)

/-- **A bar** starts over if it is flagged, and is added if it is priced. -/
theorem Sums.trace_cons (h : s.Sums seg) (b : Bool × Option ℝ × Option ℝ)
    (bars : List (Bool × Exact × Exact)) :
    ∃ s' : Segment Exact, s'.Sums (since seg [b]) ∧
      trace s (exactBar b :: bars) = (priced b.2).map (fun _ => s') :: trace s' bars := by
  obtain ⟨flag, p, v⟩ := b
  have hstart : (if flag then empty else s).Sums (if flag then [] else seg) := by
    cases flag with
    | true => exact sums_empty
    | false => exact h
  have hgap (hb : priced (p, v) = none) : since seg [(flag, p, v)] = if flag then [] else seg := by
    simp [since, hb]
  rcases p with _ | p
  · exact ⟨_, hgap rfl ▸ hstart, rfl⟩
  rcases v with _ | v
  · exact ⟨_, hgap rfl ▸ hstart, rfl⟩
  · exact ⟨_, hstart.add p v, rfl⟩

/-- **Bars** of a series leave the sums of the bars since the latest flag. -/
theorem Sums.trace (h : s.Sums seg) {bars : List (Bool × Option ℝ × Option ℝ)} {i : Nat}
    {b : Bool × Option ℝ × Option ℝ} (hb : bars[i]? = some b) :
    ∃ s' : Segment Exact, s'.Sums (since seg (bars.take (i + 1))) ∧
      (Segment.trace s (bars.map exactBar))[i]? = some ((priced b.2).map fun _ => s') := by
  induction bars generalizing s seg i with
  | nil => exact nomatch hb
  | cons first bars ih =>
    obtain ⟨s', hs', htrace⟩ := h.trace_cons first (bars.map exactBar)
    rw [List.map_cons, htrace]
    cases i with
    | zero =>
      obtain rfl := Option.some.inj hb
      exact ⟨s', hs', rfl⟩
    | succ i => exact ih hs' hb

end Segment

/-! ## The line and its bands -/

/-- Is the bar at a position flagged? The last flag belongs to the last one of `n` bars. -/
def Flagged (n : Nat) (flags : List Bool) (i : Nat) : Prop := flags.reverse[n - 1 - i]? = some true

instance (n : Nat) (flags : List Bool) : DecidablePred (Flagged n flags) :=
  fun _ => inferInstanceAs (Decidable (_ = _))

@[simp] theorem length_alignedFlags (n : Nat) (flags : List Bool) :
    (alignedFlags n flags).length = n := by
  rw [alignedFlags, List.length_append, List.length_replicate, length_newest]
  change n - flags.length + min n flags.length = n
  omega

theorem alignedFlags_getElem? {n i : Nat} (flags : List Bool) (hi : i < n) :
    (alignedFlags n flags)[i]? = some true ↔ Flagged n flags i := by
  have hreverse : flags.reverse[n - 1 - i]? =
      if n - 1 - i < flags.length then flags[flags.length - 1 - (n - 1 - i)]? else none := by
    split_ifs with h
    · exact List.getElem?_reverse h
    · exact List.getElem?_eq_none (by simpa using h)
  rw [Flagged, hreverse, alignedFlags, newest]
  by_cases hmissing : i < n - flags.length
  · rw [List.getElem?_append_left (by simpa using hmissing), if_neg (by omega)]
    simp [List.getElem?_replicate]
  · rw [List.getElem?_append_right (by simpa using hmissing), List.length_replicate,
      List.getElem?_drop, if_pos (by omega)]
    congr! 2
    omega

/-- The bars of the segment of a position up to there, those without a price or volume left out. -/
def segmentAt (bars : List (Option ℝ × Option ℝ)) (flags : List Bool) (i : Nat) : List (ℝ × ℝ) :=
  ((bars.take (i + 1)).drop (Nat.findGreatest (Flagged bars.length flags) i)).filterMap priced

/-- **The segments** of two series are those of their newest bars. -/
theorem segments_getElem? (xs volume : List (Option ℝ)) (anchor : Option (List Bool)) {i : Nat} :
    let n := Nat.min xs.length volume.length
    let bars := List.zip (newest n xs) (newest n volume)
    (segments (Exact.series xs) (Exact.series volume) anchor).length = n ∧
      ∀ b, bars[i]? = some b →
        ∃ s : Segment Exact, s.Sums (segmentAt bars (anchor.getD []) i) ∧
          (segments (Exact.series xs) (Exact.series volume) anchor)[i]? =
            some ((priced b).map fun _ => s) := by
  intro n bars
  have hxs : (newest n xs).length = n := length_newest_of_le (Nat.min_le_left _ _)
  have hvolume : (newest n volume).length = n := length_newest_of_le (Nat.min_le_right _ _)
  have hbars : bars.length = n := by rw [List.length_zip, hxs, hvolume, Nat.min_self]
  let marked := List.zip (alignedFlags n (anchor.getD [])) bars
  have hmarked : marked.length = n := by
    rw [List.length_zip, length_alignedFlags, hbars, Nat.min_self]
  have hsegments : segments (Exact.series xs) (Exact.series volume) anchor =
      Segment.trace .empty (marked.map Segment.exactBar) := by
    have haligned : aligned (Exact.series xs) (Exact.series volume) =
        (Exact.series (newest n xs), Exact.series (newest n volume)) := by
      rw [aligned, Exact.length_series, Exact.length_series, Exact.series, Exact.series, newest_map,
        newest_map]
      rfl
    rw [segments, haligned]
    simp only [Exact.length_series, hxs]
    rw [Exact.series, Exact.series, List.zip_map, List.zip_map_right]
    rfl
  rw [hsegments]
  refine ⟨?_, fun b hb => ?_⟩
  · rw [(Segment.barwise_trace _).length, List.length_map, hmarked]
  · obtain ⟨hi, rfl⟩ := List.getElem?_eq_some_iff.1 hb
    have hi' : i < marked.length := by omega
    have hbar : marked[i].2 = bars[i] := by simp [marked]
    obtain ⟨s, hs, htrace⟩ := Segment.sums_empty.trace (List.getElem?_eq_getElem hi')
    rw [hbar] at htrace
    refine ⟨s, ?_, htrace⟩
    have hflagged (j : Nat) (hj : j < marked.length) :
        Flagged bars.length (anchor.getD []) j ↔ marked[j].1 = true := by
      have hflag : (alignedFlags n (anchor.getD []))[j]? = some marked[j].1 := by
        rw [List.getElem_zip]
        exact List.getElem?_eq_getElem _
      rw [hbars, ← alignedFlags_getElem? _ (by omega : j < n), hflag, Option.some_inj]
    rw [since_take hi' hflagged, List.map_snd_zip (by simp [hbars])] at hs
    exact hs

section Outputs

variable {f : Segment Exact → Exact} {segments : List (Option (Segment Exact))} {i : Nat}
  {b : Option ℝ × Option ℝ} {s : Segment Exact}

/-- At a priced bar a function of the segments is that of the segment there. -/
theorem ofSegments_priced (h : segments[i]? = some ((priced b).map fun _ => s))
    (hpriced : priced b ≠ none) : (ofSegments f segments)[i]? = some (f s) := by
  obtain ⟨bar, hbar⟩ := Option.ne_none_iff_exists'.1 hpriced
  rw [ofSegments, List.getElem?_map, h, hbar]
  rfl

/-- At a gap, and where the segment has no mean, what needs the mean is unavailable. -/
theorem ofSegments_nan (h : segments[i]? = some ((priced b).map fun _ => s))
    (hf : s.mean = Exact.nan → f s = Exact.nan) (hgap : priced b = none ∨ s.mean = Exact.nan) :
    (ofSegments f segments)[i]? = some Exact.nan := by
  by_cases hpriced : priced b = none
  · rw [ofSegments, List.getElem?_map, h, hpriced]
    rfl
  · rw [ofSegments_priced h hpriced, hf (hgap.resolve_left hpriced)]

end Outputs

/-- **Means since an anchor, and their bands.** In exact arithmetic, for prices and volumes with gaps
and flags, of any three lengths: the newest prices and volumes, as many as there are of both, and the
last flag belong together. At a gap in the prices or the volumes, and where the volumes of the segment
sum up to nothing, the line and the bands are unavailable. Elsewhere the line is the mean price of the
segment weighted by volume, the segment being the priced bars from the latest flagged position on, or
from the first one; and the bands lie at a multiple of the deviation of the same prices. So the line
lies between the bands if the multiple is not negative, and between the least and the greatest price
if no volume is. -/
theorem vwap_anchored (xs volume : List (Option ℝ)) (anchor : Option (List Bool)) (multiple : ℝ) :
    (vwapBands (Exact.series xs) (Exact.series volume) anchor (Exact.fin multiple)).mean =
        vwap (Exact.series xs) (Exact.series volume) anchor ∧
      let n := Nat.min xs.length volume.length
      let prices := newest n xs
      let volumes := newest n volume
      let seg := segmentAt (List.zip prices volumes) (anchor.getD [])
      let mean i := meanPrice (seg i)
      let width i := multiple * deviation ((seg i).map (·.1))
      let means := vwap (Exact.series xs) (Exact.series volume) anchor
      let bands := vwapBands (Exact.series xs) (Exact.series volume) anchor (Exact.fin multiple)
      means.length = n ∧ bands.upper.length = n ∧ bands.lower.length = n ∧
        ∀ i < n,
          (prices[i]? = some none ∨ volumes[i]? = some none ∨ ((seg i).map (·.2)).sum = 0 →
            means[i]? = some Exact.nan ∧ bands.upper[i]? = some Exact.nan ∧
              bands.lower[i]? = some Exact.nan) ∧
          ((∃ p, prices[i]? = some (some p)) → (∃ v, volumes[i]? = some (some v)) →
            ((seg i).map (·.2)).sum ≠ 0 →
            means[i]? = some (Exact.fin (mean i)) ∧
              bands.upper[i]? = some (Exact.fin (mean i + width i)) ∧
              bands.lower[i]? = some (Exact.fin (mean i - width i)) ∧
              (0 ≤ multiple → mean i - width i ≤ mean i ∧ mean i ≤ mean i + width i) ∧
              ((∀ b ∈ seg i, 0 ≤ b.2) → ((seg i).map (·.1)).minimum ≤ mean i ∧
                (mean i : WithBot ℝ) ≤ ((seg i).map (·.1)).maximum)) := by
  refine ⟨rfl, ?_⟩
  intro n prices volumes seg mean width means bands
  have hlength : (segments (Exact.series xs) (Exact.series volume) anchor).length = n :=
    (segments_getElem? xs volume anchor (i := 0)).1
  refine ⟨?_, ?_, ?_, fun i hi => ?_⟩
  · exact (List.length_map _).trans hlength
  · exact (List.length_map _).trans hlength
  · exact (List.length_map _).trans hlength
  have hprices : prices.length = n := length_newest_of_le (Nat.min_le_left _ _)
  have hvolumes : volumes.length = n := length_newest_of_le (Nat.min_le_right _ _)
  have hp : prices[i]? = some prices[i] := List.getElem?_eq_getElem (hprices.symm ▸ hi)
  have hv : volumes[i]? = some volumes[i] := List.getElem?_eq_getElem (hvolumes.symm ▸ hi)
  have hbar : (List.zip prices volumes)[i]? = some (prices[i], volumes[i]) :=
    List.getElem?_zip_eq_some.2 ⟨hp, hv⟩
  obtain ⟨s, hs, hsegment⟩ := (segments_getElem? xs volume anchor).2 _ hbar
  rw [hp, hv, Option.some_inj, Option.some_inj]
  refine ⟨fun hgap => ?_, ?_⟩
  · have hnone : priced (prices[i], volumes[i]) = none ∨ s.mean = Exact.nan := by
      rw [priced_eq_none, or_assoc]
      exact hgap.imp_right (Or.imp_right fun hsum => hs.mean_eq.trans (if_pos hsum))
    exact ⟨ofSegments_nan hsegment id hnone,
      ofSegments_nan hsegment (fun h => by rw [h, Exact.nan_add]) hnone,
      ofSegments_nan hsegment (fun h => by rw [h, Exact.nan_sub]) hnone⟩
  · rintro ⟨p, hprice⟩ ⟨v, hvolume⟩ hsum
    have hpriced : priced (prices[i], volumes[i]) ≠ none := by
      rw [Option.some.inj hprice, Option.some.inj hvolume]
      exact Option.some_ne_none _
    obtain ⟨hmean, hupper, hlower⟩ := hs.bands_eq hsum multiple
    refine ⟨?_, ?_, ?_, fun hmultiple => ?_, fun hvolume => meanPrice_mem hvolume hsum⟩
    · exact (ofSegments_priced hsegment hpriced).trans (congrArg some hmean)
    · exact (ofSegments_priced hsegment hpriced).trans (congrArg some hupper)
    · exact (ofSegments_priced hsegment hpriced).trans (congrArg some hlower)
    · have hwidth : 0 ≤ width i := mul_nonneg hmultiple (deviation_nonneg _)
      exact ⟨sub_le_self _ hwidth, le_add_of_nonneg_right hwidth⟩

/-- The first price has no volume beside it, and the flag at the gap starts the segment of the two
prices after it. -/
theorem vwap_anchored_gap :
    let xs : List (Option ℝ) := [some 10, some 20, none, some 30, some 50]
    let volume : List (Option ℝ) := [some 1, some 1, some 1, some 3]
    let flags := [true, false, false]
    let means := vwap (Exact.series xs) (Exact.series volume) (some flags)
    let bands := vwapBands (Exact.series xs) (Exact.series volume) (some flags) (Exact.fin 2)
    means[1]? = some Exact.nan ∧ means[3]? = some (Exact.fin 45) ∧
      bands.upper[3]? = some (Exact.fin 65) ∧ bands.lower[3]? = some (Exact.fin 25) := by
  intro xs volume flags means bands
  obtain ⟨-, -, -, -, hbar⟩ := vwap_anchored xs volume (some flags) 2
  have hseg : segmentAt [(some 20, some 1), (none, some 1), (some 30, some 1), (some 50, some 3)]
      flags 3 = [(30, 1), (50, 3)] := rfl
  have hsum : (([(30, 1), (50, 3)] : List (ℝ × ℝ)).map (·.2)).sum ≠ 0 := by norm_num
  have hmean : meanPrice [(30, 1), (50, 3)] = 45 := by norm_num [meanPrice]
  have hdeviation : deviation [30, 50] = 10 := by
    rw [deviation, show (10 : ℝ) = √(10 ^ 2) by rw [Real.sqrt_sq (by norm_num)]]
    norm_num
  have hupper : meanPrice [(30, 1), (50, 3)] + 2 * deviation [30, 50] = 65 := by
    norm_num [hmean, hdeviation]
  have hlower : meanPrice [(30, 1), (50, 3)] - 2 * deviation [30, 50] = 25 := by
    norm_num [hmean, hdeviation]
  obtain ⟨hthree, habove, hbelow, -, -⟩ := (hbar 3 (by decide)).2 ⟨50, rfl⟩ ⟨3, rfl⟩ (hseg ▸ hsum)
  exact ⟨((hbar 1 (by decide)).1 (.inl rfl)).1, hthree.trans (congrArg (some ∘ Exact.fin) hmean),
    habove.trans (congrArg (some ∘ Exact.fin) hupper),
    hbelow.trans (congrArg (some ∘ Exact.fin) hlower)⟩

end BarScript
