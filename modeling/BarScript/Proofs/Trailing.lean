import Mathlib.Data.List.Basic
import BarScript.Indicator.Anchored
import BarScript.Indicator.Difference
import BarScript.Indicator.Supertrend
import BarScript.Indicator.Weighted

/-!
# What an indicator looks at

Every indicator is a function of lists that gives one output for each input. An output never looks at
later inputs: of the inputs up to a bar it gives the outputs up to that bar (`Barwise`). Where it is a
function of a trailing window, an output does not look far back either: of the newest inputs alone the
indicator gives the newest outputs (`newest_range`).
-/

namespace BarScript

variable {ι β γ δ : Type}

/-! ## Outputs do not look ahead -/

/-- One output for each input, which later inputs do not change. -/
structure Barwise (F : List ι → List β) : Prop where
  length : ∀ xs, (F xs).length = xs.length
  take : ∀ xs n, F (xs.take n) = (F xs).take n

namespace Barwise

variable {F : List ι → List β} {G : List ι → List γ}

theorem map (f : ι → β) : Barwise (List.map f) :=
  ⟨fun _ => List.length_map .., fun _ _ => List.map_take⟩

theorem id : Barwise fun xs : List ι => xs := ⟨fun _ => rfl, fun _ _ => rfl⟩

theorem comp {H : List β → List γ} (hH : Barwise H) (hF : Barwise F) :
    Barwise fun xs => H (F xs) :=
  ⟨fun xs => (hH.length _).trans (hF.length xs), fun xs n => by rw [hF.take, hH.take]⟩

theorem zipWith (f : β → γ → δ) (hF : Barwise F) (hG : Barwise G) :
    Barwise fun xs => List.zipWith f (F xs) (G xs) where
  length xs := by rw [List.length_zipWith, hF.length, hG.length, Nat.min_self]
  take xs n := by rw [hF.take, hG.take, List.take_zipWith]

/-- A scan: each input gives an output and leads to the state that the rest is scanned from. -/
theorem scan {σ : Type} {F : σ → List ι → List β} (hnil : ∀ s, F s [] = [])
    (hcons : ∀ s x, ∃ y s', ∀ xs, F s (x :: xs) = y :: F s' xs) (s : σ) : Barwise (F s) := by
  refine ⟨fun xs => ?_, fun xs n => ?_⟩
  · induction xs generalizing s with
    | nil => rw [hnil, List.length_nil, List.length_nil]
    | cons x xs ih =>
      obtain ⟨y, s', h⟩ := hcons s x
      rw [h, List.length_cons, ih, List.length_cons]
  · induction xs generalizing s n with
    | nil => rw [List.take_nil, hnil, List.take_nil]
    | cons x xs ih =>
      obtain ⟨y, s', h⟩ := hcons s x
      cases n with
      | zero => rw [List.take_zero, hnil, List.take_zero]
      | succ n => rw [List.take_succ_cons, h, h, ih, List.take_succ_cons]

theorem replay {σ : Type} [Streaming σ ι β] (s : σ) : Barwise (BarScript.replay s) :=
  scan (F := BarScript.replay) (fun _ => rfl)
    (fun s x => ⟨(Streaming.next s x).1, (Streaming.next s x).2, fun _ => rfl⟩) s

/-- Every output takes the input before as well; the first one takes `c`. -/
theorem delayed (f : β → γ → δ) (hF : Barwise F) (c : γ) (g : ι → γ) :
    Barwise fun xs => List.zipWith f (F xs) (c :: xs.map g) := by
  have hbefore : Barwise fun xs => (c :: xs.map g).dropLast :=
    scan (F := fun c xs => (c :: xs.map g).dropLast) (fun _ => rfl)
      (fun _ x => ⟨_, g x, fun _ => rfl⟩) c
  have hcut (xs : List ι) : List.zipWith f (F xs) (c :: xs.map g) =
      List.zipWith f (F xs) (c :: xs.map g).dropLast := by
    rw [List.zipWith_eq_zipWith_take_min, List.dropLast_eq_take,
      List.take_of_length_le (by simp [hF.length])]
    simp [hF.length]
  simpa only [hcut] using hF.zipWith f hbefore

/-- A function of the inputs at every position, if the inputs after a position do not change it. -/
theorem range {g : List ι → Nat → β}
    (hg : ∀ xs n i, i < n → g (xs.take n) i = g xs i) :
    Barwise fun xs => (List.range xs.length).map (g xs) where
  length xs := by simp
  take xs n := by
    rw [← List.map_take, List.take_range, List.length_take]
    refine List.map_congr_left fun i hi => hg xs n i ?_
    exact Nat.lt_of_lt_of_le (List.mem_range.1 hi) (Nat.min_le_left _ _)


end Barwise

theorem getElem?_eq_lastValue [Arith β] {ys : List β} {i : Nat} (hi : i < ys.length) :
    ys[i]? = some (lastValue (ys.take (i + 1))) := by
  rw [lastValue, List.getLast?_take, if_neg (Nat.succ_ne_zero i), Nat.add_sub_cancel,
    List.getElem?_eq_getElem hi]
  rfl

/-! ## The newest outputs -/

@[simp] theorem length_newest (n : Nat) (xs : List β) :
    (newest n xs).length = Nat.min n xs.length := by
  rw [newest, List.length_drop]
  exact Nat.sub_sub_eq_min _ _ |>.trans (Nat.min_comm _ _)

theorem length_newest_of_le {n : Nat} {xs : List β} (h : n ≤ xs.length) :
    (newest n xs).length = n :=
  (length_newest n xs).trans (Nat.min_eq_left h)

theorem length_newest_le (n : Nat) (xs : List β) : (newest n xs).length ≤ n :=
  length_newest n xs ▸ Nat.min_le_left _ _

theorem newest_map (f : β → γ) (n : Nat) (xs : List β) :
    newest n (xs.map f) = (newest n xs).map f := by
  rw [newest, newest, List.length_map, List.map_drop]

theorem newest_of_length_le {n : Nat} {xs : List β} (h : xs.length ≤ n) : newest n xs = xs := by
  rw [newest, Nat.sub_eq_zero_of_le h, List.drop_zero]

theorem newest_zipWith (n : Nat) (f : β → γ → δ) {xs : List β} {ys : List γ}
    (h : xs.length = ys.length) :
    newest n (List.zipWith f xs ys) = List.zipWith f (newest n xs) (newest n ys) := by
  rw [newest, newest, newest, List.length_zipWith, ← h, Nat.min_self, List.drop_zipWith]

theorem lastValue_newest [Arith β] {n : Nat} (hn : 0 < n) (xs : List β) :
    lastValue (newest n xs) = lastValue xs := by
  rw [lastValue, lastValue, newest, List.getLast?_drop]
  split
  · have : xs = [] := List.length_eq_zero_iff.1 (by omega)
    rw [this]
    rfl
  · rfl

/-- **The newest inputs suffice** for the newest `m` outputs, if an output looks `r` inputs back. -/
theorem newest_range {g : List ι → Nat → β} {r m k : Nat}
    (hg : ∀ xs d i, r ≤ i → g (xs.drop d) i = g xs (i + d)) (hk : r + m ≤ k) (xs : List ι) :
    newest m ((List.range (newest k xs).length).map (g (newest k xs))) =
      newest m ((List.range xs.length).map (g xs)) := by
  by_cases hlong : xs.length ≤ k
  · rw [newest_of_length_le hlong]
  have hlength : (newest k xs).length = k := length_newest_of_le (by omega)
  rw [hlength]
  have hm : Nat.min m k = m := Nat.min_eq_left (by omega)
  have hm' : Nat.min m xs.length = m := Nat.min_eq_left (by omega)
  apply List.ext_getElem
  · simp only [length_newest, List.length_map, List.length_range, hm, hm']
  intro j h1 h2
  simp only [length_newest, List.length_map, List.length_range, hm] at h1
  simp only [newest, List.getElem_drop, List.getElem_map, List.getElem_range, List.length_map,
    List.length_range]
  -- position `k - m + j` of the newest `k` inputs is `xs.length - m + j` of them all
  rw [hg _ _ _ (by omega)]
  congr 1
  omega

section

variable {α : Type} [Arith α]

/-! ## Windows -/

theorem window?_take (xs : List α) (period : Nat) {n i : Nat} (hi : i < n) :
    window? (xs.take n) period i = window? xs period i := by
  have hlength : i ≥ (xs.take n).length ↔ i ≥ xs.length := by
    rw [List.length_take]
    omega
  unfold window?
  simp only [hlength]
  split
  · rfl
  · rw [List.drop_take, List.take_take, Nat.min_eq_left (by omega)]

theorem window?_drop (xs : List α) (period d : Nat) {i : Nat} (hi : period - 1 ≤ i) :
    window? (xs.drop d) period i = window? xs period (i + d) := by
  have hlength : (period = 0 ∨ i + 1 < period ∨ i ≥ (xs.drop d).length) ↔
      (period = 0 ∨ i + d + 1 < period ∨ i + d ≥ xs.length) := by
    rw [List.length_drop]
    omega
  unfold window?
  simp only [hlength]
  split
  · rfl
  · rw [List.drop_drop, show d + (i + 1 - period) = i + d + 1 - period by omega]

theorem Barwise.windowed (period : Nat) (f : List α → α) :
    Barwise fun xs => BarScript.windowed xs period f :=
  .range fun xs _ _ hi => by rw [window?_take xs period hi]

theorem newest_windowed {period m k : Nat} (f : List α → α) (hk : period - 1 + m ≤ k)
    (xs : List α) : newest m (windowed (newest k xs) period f) = newest m (windowed xs period f) :=
  newest_range (g := fun xs i => ((window? xs period i).map f).getD Arith.nan)
    (fun xs d i hi => by rw [window?_drop xs period d hi]) hk xs

/-- No window is empty. -/
theorem lastValue_windowed_zero (xs : List α) (f : List α → α) :
    lastValue (windowed xs 0 f) = Arith.nan := by
  have hnone (i : Nat) : window? xs 0 i = none := if_pos (.inl rfl)
  rw [lastValue, windowed, List.getLast?_map]
  cases (List.range xs.length).getLast? <;> simp [hnone]

/-- The newest output of a window takes the newest inputs only. -/
theorem lastValue_windowed (xs : List α) (period : Nat) (f : List α → α) :
    lastValue (windowed (newest period xs) period f) = lastValue (windowed xs period f) := by
  cases period with
  | zero => rw [lastValue_windowed_zero, lastValue_windowed_zero]
  | succ n =>
    rw [← lastValue_newest Nat.one_pos, newest_windowed f (by omega : n + 1 - 1 + 1 ≤ n + 1),
      lastValue_newest Nat.one_pos]

theorem lastValue_windowed_congr {xs ys : List α} {period : Nat} (f : List α → α)
    (h : newest period xs = newest period ys) :
    lastValue (windowed xs period f) = lastValue (windowed ys period f) := by
  rw [← lastValue_windowed xs, h, lastValue_windowed]

/-! ## Hull's average -/

theorem barwise_hma (period : Nat) : Barwise fun xs : List α => hma xs period :=
  (Barwise.windowed _ _).comp (.zipWith _ (.windowed _ _) (.windowed _ _))

/-- A Hull average takes as many inputs as it looks back on. -/
theorem lastValue_hma (xs : List α) (period : Nat) (hsize : xs.length ≤ Arith.maxCount) :
    lastValue (hma (newest (hullLookback period) xs) period) = lastValue (hma xs period) := by
  by_cases hzero : hullSmoothing period = 0
  · simp only [hma, wma, hzero, lastValue_windowed_zero]
  by_cases hshort : xs.length ≤ hullLookback period
  · rw [newest_of_length_le hshort]
  have hreach : period - 1 + hullSmoothing period ≤ hullLookback period := by
    unfold hullLookback at hshort ⊢
    split
    · rename_i h
      have hperiod : period < 2 := by omega
      obtain rfl | rfl : period = 0 ∨ period = 1 := by omega
      · exact absurd (by decide +kernel) hzero
      · exact (by decide +kernel : 1 - 1 + hullSmoothing 1 ≤ 1)
    · rename_i h
      rw [if_neg h, Arith.addCount] at hshort
      have : ¬ Arith.maxCount ≤ period + (hullSmoothing period - 1) := fun hle =>
        hshort (Nat.le_trans hsize (Nat.le_of_eq (Nat.min_eq_right hle).symm))
      rw [Arith.addCount, show Nat.min _ _ = _ from Nat.min_eq_left (Nat.le_of_not_le this)]
      omega
  refine lastValue_windowed_congr _ ?_
  simp only [wma]
  rw [newest_zipWith _ _ (by simp), newest_zipWith _ _ (by simp),
    newest_windowed _ (by omega), newest_windowed _ hreach]

/-! ## Stacked averages -/

theorem barwise_dema (period : Nat) : Barwise fun xs : List α => dema xs period :=
  .zipWith _ (.replay _) ((Barwise.replay _).comp (.replay _))

theorem barwise_tema (period : Nat) : Barwise fun xs : List α => tema xs period :=
  have twice : Barwise fun xs : List α => ema (ema xs period) period :=
    (Barwise.replay _).comp (.replay _)
  .zipWith _ (.zipWith _ (.replay _) twice) ((Barwise.replay _).comp twice)

/-! ## Differences -/

/-- The difference at a position. -/
def laggedAt (length : Nat) (f : α → α → α) (xs : List α) (i : Nat) : α :=
  if length = 0 ∨ i < length then Arith.nan
  else
    match xs[i]?, xs[i - length]? with
    | some now, some before => f now before
    | _, _ => Arith.nan

theorem barwise_lagged (length : Nat) (f : α → α → α) :
    Barwise fun xs : List α => lagged xs length f :=
  .range (g := laggedAt length f) fun xs n i hi => by
    rw [laggedAt, laggedAt, List.getElem?_take_of_lt hi, List.getElem?_take_of_lt (by omega)]

/-- A difference takes the inputs up to the older of its two. -/
theorem lastValue_lagged (xs : List α) (length : Nat) (f : α → α → α)
    (hsize : xs.length ≤ Arith.maxCount) :
    lastValue (lagged (newest (Arith.addCount length 1) xs) length f) =
      lastValue (lagged xs length f) := by
  by_cases hlong : length + 1 ≤ Arith.maxCount
  · rw [Arith.addCount, show Nat.min _ _ = _ from Nat.min_eq_left hlong,
      ← lastValue_newest Nat.one_pos, ← lastValue_newest Nat.one_pos (lagged xs length f)]
    refine congrArg _ (newest_range (g := laggedAt length f) (r := length) (fun xs d i hi => ?_)
      (Nat.le_refl _) xs)
    rw [laggedAt, laggedAt, List.getElem?_drop, List.getElem?_drop, Nat.add_comm d i,
      show d + (i - length) = i + d - length by omega]
    simp only [show i < length ↔ i + d < length by omega]
  · rw [newest_of_length_le]
    exact Nat.le_trans hsize (Nat.le_of_eq (Nat.min_eq_right (by omega)).symm)

/-! ## Means weighted by volume -/

omit [Arith α] in
theorem aligned_of_length_eq {xs ys : List α} (h : xs.length = ys.length) :
    aligned xs ys = (xs, ys) := by
  rw [aligned, ← h, show Nat.min xs.length xs.length = _ from Nat.min_self _,
    newest_of_length_le (Nat.le_refl _), newest_of_length_le (Nat.le_of_eq h.symm)]

/-- The mean of a window of prices with their volumes. -/
def volumeMean (period : Nat) (bars : List (α × α)) (i : Nat) : α :=
  match window? (bars.map (·.1)) period i, window? (bars.map (·.2)) period i with
  | some p, some v => Arith.sum (List.zipWith (· * ·) p v) / Arith.sum v
  | _, _ => Arith.nan

theorem vwma_eq (period : Nat) {xs volume : List α} (h : xs.length = volume.length) :
    vwma xs volume period =
      (List.range (xs.zip volume).length).map (volumeMean period (xs.zip volume)) := by
  rw [vwma, aligned_of_length_eq h, List.length_zip, ← h, Nat.min_self]
  unfold volumeMean
  rw [List.map_fst_zip (Nat.le_of_eq h), List.map_snd_zip (Nat.le_of_eq h.symm)] <;> rfl

theorem barwise_volumeMean (period : Nat) : Barwise fun bars : List (α × α) =>
    (List.range bars.length).map (volumeMean period bars) :=
  .range fun bars n i hi => by
    unfold volumeMean
    rw [List.map_take, List.map_take, window?_take _ _ hi, window?_take _ _ hi]

theorem lastValue_volumeMean (period : Nat) (bars : List (α × α)) :
    lastValue ((List.range (newest period bars).length).map
        (volumeMean period (newest period bars))) =
      lastValue ((List.range bars.length).map (volumeMean period bars)) := by
  cases period with
  | zero =>
    have hnan (bars : List (α × α)) (i : Nat) : volumeMean 0 bars i = Arith.nan := by
      rw [volumeMean, window?, if_pos (.inl rfl)]
    rw [lastValue, lastValue, List.getLast?_map, List.getLast?_map]
    cases (List.range bars.length).getLast? <;>
      cases (List.range (newest 0 bars).length).getLast? <;> simp [hnan]
  | succ n =>
    rw [← lastValue_newest Nat.one_pos, newest_range (r := n) (fun bars d i hi => ?_)
      (Nat.le_refl _), lastValue_newest Nat.one_pos]
    unfold volumeMean
    rw [List.map_drop, List.map_drop, window?_drop _ _ _ hi, window?_drop _ _ _ hi]

theorem length_vwma (period : Nat) {xs volume : List α} (h : xs.length = volume.length) :
    (vwma xs volume period).length = xs.length := by
  rw [vwma_eq period h, List.length_map, List.length_range, List.length_zip, ← h, Nat.min_self]

/-- The means of the bars up to one are the means up to there. -/
theorem vwma_take (period : Nat) {xs volume : List α} (h : xs.length = volume.length) (n : Nat) :
    vwma (xs.take n) (volume.take n) period = (vwma xs volume period).take n := by
  rw [vwma_eq period h, ← (barwise_volumeMean period).take,
    vwma_eq period (by rw [List.length_take, List.length_take, h])]
  simp only [List.zip, List.take_zipWith]

/-- The newest mean takes the newest bars only. -/
theorem lastValue_vwma (period : Nat) {xs volume : List α} (h : xs.length = volume.length) :
    lastValue (vwma (newest period xs) (newest period volume) period) =
      lastValue (vwma xs volume period) := by
  rw [vwma_eq period h, ← lastValue_volumeMean, List.zip, newest_zipWith _ _ h,
    vwma_eq period (by rw [length_newest, length_newest, h]), List.zip]

/-! ## Ranges of bars -/

theorem barwise_atr (f g h : ι → α) (period : Nat) : Barwise fun bars : List ι =>
    atr (bars.map f) (bars.map g) (bars.map h) period := by
  simp only [atr, Reach.zip_map]
  exact (Barwise.replay _).comp (.map _)

theorem barwise_bandInputs (f g h : ι → α) (factor : α) (period : Nat) :
    Barwise fun bars : List ι =>
      bandInputs (bars.map f) (bars.map g) (bars.map h) factor period := by
  simp only [bandInputs, Reach.zip_map]
  exact (Barwise.delayed _ (.zipWith _ .id (.replay _)) _ Reach.close).comp (.map _)

theorem Bands.trace_cons (state : Option (Bands α)) (x : BandInput α) :
    ∃ y state', ∀ xs, trace state (x :: xs) = y :: trace state' xs := by
  by_cases hx : Arith.isNaN x.upper || Arith.isNaN x.lower || Arith.isNaN x.close
  · exact ⟨none, state, fun xs => by rw [trace.eq_def]; exact if_pos hx⟩
  · exact ⟨_, _, fun xs => by rw [trace.eq_def]; exact if_neg hx⟩

/-- The bands start after the first `n` bars. -/
theorem Bands.barwise_trace (n : Nat) : Barwise fun xs : List (BandInput α) =>
    (xs.take n).map (fun _ => none) ++ trace none (xs.drop n) := by
  refine .scan (F := fun (s : Nat × Option (Bands α)) xs =>
    (xs.take s.1).map (fun _ => none) ++ trace s.2 (xs.drop s.1)) ?_ ?_ (n, none)
  · rintro ⟨n, state⟩
    rw [List.take_nil, List.drop_nil]
    rfl
  · rintro ⟨n, state⟩ x
    cases n with
    | zero =>
      obtain ⟨y, state', h⟩ := trace_cons state x
      exact ⟨y, (0, state'), h⟩
    | succ n => exact ⟨none, (n, state), fun _ => rfl⟩

theorem barwise_supertrendBands (f g h : ι → α) (factor : α) (period : Nat) :
    Barwise fun bars : List ι =>
      supertrendBands (bars.map f) (bars.map g) (bars.map h) factor period := by
  unfold supertrendBands
  by_cases hperiod : period = 0
  · simp only [if_pos hperiod]
    exact (Barwise.map _).comp (barwise_bandInputs f g h factor period)
  · simp only [if_neg hperiod]
    exact (Bands.barwise_trace period).comp (barwise_bandInputs f g h factor period)

/-! ## Anchored means -/

theorem Segment.barwise_trace (s : Segment α) : Barwise (trace s) :=
  .scan (fun _ => rfl) (fun s x => by
    by_cases hx : Arith.isNaN x.2.1 || Arith.isNaN x.2.2
    · exact ⟨none, _, fun xs => by rw [trace.eq_def]; exact if_pos hx⟩
    · exact ⟨_, _, fun xs => by rw [trace.eq_def]; exact if_neg hx⟩) s

omit [Arith α] in
/-- Flags that are there for every bar stay as they are; absent ones are down. -/
theorem alignedFlags_eq {n : Nat} {anchor : Option (List Bool)}
    (h : ∀ flags ∈ anchor, flags.length = n) :
    alignedFlags n (anchor.getD []) = anchor.getD (List.replicate n false) := by
  cases anchor with
  | none => simp [alignedFlags, newest]
  | some flags =>
    obtain rfl := h flags rfl
    simp [alignedFlags, newest]

theorem segments_eq {xs volume : List α} {anchor : Option (List Bool)}
    (hvolume : xs.length = volume.length) (hanchor : ∀ flags ∈ anchor, flags.length = xs.length) :
    segments xs volume anchor = Segment.trace Segment.empty
      (List.zip (anchor.getD (List.replicate xs.length false)) (List.zip xs volume)) := by
  rw [segments, aligned_of_length_eq hvolume]
  exact congrArg (fun flags => Segment.trace _ (List.zip flags _)) (alignedFlags_eq hanchor)

/-- The segments of the bars up to one are the segments up to there. -/
theorem segments_take {xs volume : List α} {anchor : Option (List Bool)}
    (hvolume : xs.length = volume.length) (hanchor : ∀ flags ∈ anchor, flags.length = xs.length)
    (n : Nat) :
    segments (xs.take n) (volume.take n) (anchor.map (·.take n)) =
      (segments xs volume anchor).take n := by
  have hlength : (xs.take n).length = (volume.take n).length := by
    rw [List.length_take, List.length_take, hvolume]
  rw [segments_eq hvolume hanchor, ← (Segment.barwise_trace _).take, segments_eq hlength]
  · have hflags : (anchor.map (·.take n)).getD (List.replicate (xs.take n).length false) =
        (anchor.getD (List.replicate xs.length false)).take n := by
      cases anchor <;> simp
    simp only [hflags, List.zip, List.take_zipWith]
  · rintro _ hflags
    obtain ⟨flags, hmem, rfl⟩ := Option.map_eq_some_iff.1 hflags
    rw [List.length_take, List.length_take, hanchor flags hmem]

theorem length_segments {xs volume : List α} {anchor : Option (List Bool)}
    (hvolume : xs.length = volume.length) (hanchor : ∀ flags ∈ anchor, flags.length = xs.length) :
    (segments xs volume anchor).length = xs.length := by
  rw [segments_eq hvolume hanchor, (Segment.barwise_trace _).length, List.length_zip,
    List.length_zip, ← hvolume, Nat.min_self]
  cases anchor with
  | none => simp
  | some flags => simp [hanchor flags rfl]

end

end BarScript
