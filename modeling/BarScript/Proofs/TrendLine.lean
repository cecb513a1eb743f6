import Mathlib
import BarScript.Indicator.Supertrend
import BarScript.Proofs.Exact
import BarScript.Proofs.Trailing

/-!
# The side of the supertrend line

In exact arithmetic the line of a trend up lies at or below the close and never falls while the
trend lasts, and the line of a trend down lies at or above it and never rises (`supertrend_sides`).
There is one way out: a close may turn the trend although it lies outside the two bands around its
own bar. The line may then start on the wrong side, which `supertrend_wrong_side` shows, and the bar
after it moves the line once against the trend.
-/

namespace BarScript

/-! ## One bar -/

/-- A bar that moves the bands: its numbers are available and its own bands do not cross. -/
structure BandInput.Proper (x : BandInput Exact) : Prop where
  upper : x.upper ≠ .nan
  lower : x.lower ≠ .nan
  close : x.close ≠ .nan
  previous : x.previousClose ≠ .nan
  ordered : x.lower ≤ x.upper

/-- The close lies outside the bands around its own bar. -/
def BandInput.Outside (x : BandInput Exact) : Prop := x.close < x.lower ∨ x.upper < x.close

namespace Bands

/-- The bands after a bar, the first one or another. -/
def after {α : Type} [Arith α] : Option (Bands α) → BandInput α → Bands α
  | none, x => first x
  | some b, x => b.next x

structure Proper (b : Bands Exact) : Prop where
  upper : b.upper ≠ .nan
  lower : b.lower ≠ .nan

/-- The line is not beyond the close. -/
def OnSide (b : Bands Exact) (close : Exact) : Prop :=
  (b.trend = .up → b.lower ≤ close) ∧ (b.trend = .down → close ≤ b.upper)

section
variable {b : Bands Exact} {x : BandInput Exact}

theorem Proper.after {before : Option (Bands Exact)} (h : ∀ b ∈ before, b.Proper)
    (hu : x.upper ≠ .nan) (hl : x.lower ≠ .nan) : (Bands.after before x).Proper := by
  cases before with
  | none => exact ⟨hu, hl⟩
  | some b =>
    have hb := h b rfl
    constructor
    · simp only [Bands.after, next]
      split
      · exact hu
      · exact hb.upper
    · simp only [Bands.after, next]
      split
      · exact hl
      · exact hb.lower

theorem first_onSide (hx : x.Proper) : (first x).OnSide x.close := by
  obtain ⟨hu, hl, hc, -, hlu⟩ := hx
  unfold OnSide first
  simp (disch := assumption) only [Exact.le_iff_place] at hlu ⊢
  split_ifs with hclose
  · exact ⟨nofun, fun _ => hclose⟩
  · exact ⟨fun _ => hlu.trans (le_of_not_ge hclose), nofun⟩

/-- The upper band is the one of the bar or has not changed. -/
theorem next_upper (hb : b.Proper) (hx : x.Proper) :
    (b.next x).upper = x.upper ∧ (x.upper < b.upper ∨ b.upper < x.previousClose) ∨
      (b.next x).upper = b.upper ∧ b.upper ≤ x.upper ∧ x.previousClose ≤ b.upper := by
  by_cases h : x.upper < b.upper ∨ b.upper < x.previousClose
  · exact .inl ⟨if_pos h, h⟩
  · rw [not_or] at h
    exact .inr ⟨if_neg (not_or.2 h), Exact.le_of_not_lt hx.upper hb.upper h.1,
      Exact.le_of_not_lt hb.upper hx.previous h.2⟩

/-- The lower band is the one of the bar or has not changed. -/
theorem next_lower (hb : b.Proper) (hx : x.Proper) :
    (b.next x).lower = x.lower ∧ (b.lower < x.lower ∨ x.previousClose < b.lower) ∨
      (b.next x).lower = b.lower ∧ x.lower ≤ b.lower ∧ b.lower ≤ x.previousClose := by
  by_cases h : b.lower < x.lower ∨ x.previousClose < b.lower
  · exact .inl ⟨if_pos h, h⟩
  · rw [not_or] at h
    exact .inr ⟨if_neg (not_or.2 h), Exact.le_of_not_lt hb.lower hx.lower h.1,
      Exact.le_of_not_lt hx.previous hb.lower h.2⟩

/-- A trend lasts while the close does not go beyond its line, and turns when it does. -/
theorem next_trend (hb : b.Proper) (hx : x.Proper) :
    match b.trend, (b.next x).trend with
    | .up, .up => (b.next x).lower ≤ x.close
    | .up, .down => x.close < (b.next x).lower
    | .down, .up => (b.next x).upper < x.close
    | .down, .down => x.close ≤ (b.next x).upper := by
  have hnext : (after (some b) x).Proper := Proper.after (by simpa using hb) hx.upper hx.lower
  obtain ⟨upper, lower, _ | _⟩ := b
  · by_cases h : x.close < (next ⟨upper, lower, .up⟩ x).lower
    · rw [show (next ⟨upper, lower, .up⟩ x).trend = .down from if_pos h]
      exact h
    · rw [show (next ⟨upper, lower, .up⟩ x).trend = .up from if_neg h]
      exact Exact.le_of_not_lt hx.close hnext.lower h
  · by_cases h : (next ⟨upper, lower, .down⟩ x).upper < x.close
    · rw [show (next ⟨upper, lower, .down⟩ x).trend = .up from if_pos h]
      exact h
    · rw [show (next ⟨upper, lower, .down⟩ x).trend = .down from if_neg h]
      exact Exact.le_of_not_lt hnext.upper hx.close h

/-- A close inside the bands of its own bar leaves the line on its side, and so does every close
that does not turn the trend. -/
theorem next_onSide (hb : b.Proper) (hx : x.Proper)
    (hin : b.trend ≠ (b.next x).trend → ¬ x.Outside) : (b.next x).OnSide x.close := by
  have hupper := next_upper hb hx
  have hlower := next_lower hb hx
  have htrend := next_trend hb hx
  obtain ⟨hbu, hbl⟩ := hb
  obtain ⟨hu, hl, hc, hp, hlu⟩ := hx
  unfold OnSide BandInput.Outside at *
  generalize b.next x = now at *
  cases hold : b.trend <;> cases hnow : now.trend <;> simp only [hold, hnow] at hin htrend
  case up.up => exact ⟨fun _ => htrend, nofun⟩
  case down.down => exact ⟨nofun, fun _ => htrend⟩
  -- A band that has not changed lies on the known side of the close before.
  case up.down =>
    refine ⟨nofun, fun _ => ?_⟩
    rcases hupper with ⟨hu', -⟩ | ⟨hu', -, hpu⟩ <;> rcases hlower with ⟨hl', -⟩ | ⟨hl', -, hpl⟩ <;>
      simp (disch := assumption) only [hu', hl', Exact.le_iff_place, Exact.lt_iff_place] at * <;>
      grind
  case down.up =>
    refine ⟨fun _ => ?_, nofun⟩
    rcases hupper with ⟨hu', -⟩ | ⟨hu', -, hpu⟩ <;> rcases hlower with ⟨hl', -⟩ | ⟨hl', -, hpl⟩ <;>
      simp (disch := assumption) only [hu', hl', Exact.le_iff_place, Exact.lt_iff_place] at * <;>
      grind

/-- A lower band at or below the close before does not fall. -/
theorem lower_le_next (hb : b.Proper) (hx : x.Proper) (h : b.lower ≤ x.previousClose) :
    b.lower ≤ (b.next x).lower := by
  have hlower := next_lower hb hx
  obtain ⟨hbu, hbl⟩ := hb
  obtain ⟨hu, hl, hc, hp, hlu⟩ := hx
  rcases hlower with ⟨hl', hlt⟩ | ⟨hl', -⟩ <;>
    simp (disch := assumption) only [hl', Exact.le_iff_place, Exact.lt_iff_place] at *
  · grind
  · exact le_refl _

/-- An upper band at or above the close before does not rise. -/
theorem next_upper_le (hb : b.Proper) (hx : x.Proper) (h : x.previousClose ≤ b.upper) :
    (b.next x).upper ≤ b.upper := by
  have hupper := next_upper hb hx
  obtain ⟨hbu, hbl⟩ := hb
  obtain ⟨hu, hl, hc, hp, hlu⟩ := hx
  rcases hupper with ⟨hu', hlt⟩ | ⟨hu', -⟩ <;>
    simp (disch := assumption) only [hu', Exact.le_iff_place, Exact.lt_iff_place] at *
  · grind
  · exact le_refl _

end

/-! ## All bars -/

section
variable {α : Type}

/-- The newest bands of some bars. -/
def newest? (bands : List (Option (Bands α))) : Option (Bands α) := bands.reduceOption.getLast?

theorem newest?_cons (b : Option (Bands α)) (bands : List (Option (Bands α))) :
    newest? (b :: bands) = (newest? bands).or b := by
  cases b with
  | none => rw [newest?, List.reduceOption_cons_of_none, ← newest?, Option.or_none]
  | some b =>
    rw [newest?, List.reduceOption_cons_of_some, List.getLast?_cons, ← newest?]
    cases newest? bands <;> rfl

theorem newest?_concat (bands : List (Option (Bands α))) (b : Bands α) :
    newest? (bands ++ [some b]) = some b := by
  simp [newest?, List.reduceOption_append]

theorem newest?_replicate_none (n : Nat) (bands : List (Option (Bands α))) :
    newest? (List.replicate n none ++ bands) = newest? bands := by
  simp [newest?, List.reduceOption_append, List.reduceOption_replicate_none]

theorem mem_of_newest? {bands : List (Option (Bands α))} {b : Bands α}
    (h : newest? bands = some b) : some b ∈ bands :=
  List.reduceOption_mem_iff.1 (List.mem_of_getLast? h)

variable [Arith α]

theorem trace_available (state : Option (Bands α)) {x : BandInput α} (xs : List (BandInput α))
    (hu : Arith.isNaN x.upper = false) (hl : Arith.isNaN x.lower = false)
    (hc : Arith.isNaN x.close = false) :
    trace state (x :: xs) = some (after state x) :: trace (some (after state x)) xs := by
  rw [trace.eq_def]
  simp only [hu, hl, hc]
  cases state <;> rfl

theorem trace_unavailable (state : Option (Bands α)) {x : BandInput α} (xs : List (BandInput α))
    (h : ¬ (Arith.isNaN x.upper = false ∧ Arith.isNaN x.lower = false ∧
      Arith.isNaN x.close = false)) :
    trace state (x :: xs) = none :: trace state xs := by
  rw [trace.eq_def]
  refine if_pos ?_
  by_contra hx
  exact h (by simpa [and_assoc] using hx)

/-- The bands at a position come from its bar and from the newest bands before it. -/
theorem trace_getElem? {xs : List (BandInput α)} {state : Option (Bands α)} {i : Nat} {b : Bands α}
    (h : (trace state xs)[i]? = some (some b)) :
    ∃ x, xs[i]? = some x ∧ Arith.isNaN x.upper = false ∧ Arith.isNaN x.lower = false ∧
      Arith.isNaN x.close = false ∧
      b = after ((newest? ((trace state xs).take i)).or state) x := by
  induction xs generalizing state i with
  | nil => exact nomatch h
  | cons x xs ih =>
    by_cases hx : Arith.isNaN x.upper = false ∧ Arith.isNaN x.lower = false ∧
        Arith.isNaN x.close = false
    · obtain ⟨hu, hl, hc⟩ := hx
      rw [trace_available state xs hu hl hc] at h ⊢
      cases i with
      | zero => exact ⟨x, rfl, hu, hl, hc, by simpa [newest?] using h.symm⟩
      | succ i =>
        obtain ⟨y, hy, hyu, hyl, hyc, rfl⟩ := ih h
        refine ⟨y, hy, hyu, hyl, hyc, ?_⟩
        rw [List.take_succ_cons, newest?_cons, Option.or_assoc, Option.some_or]
    · rw [trace_unavailable state xs hx] at h ⊢
      cases i with
      | zero => exact nomatch h
      | succ i =>
        obtain ⟨y, hy, hyu, hyl, hyc, rfl⟩ := ih h
        exact ⟨y, hy, hyu, hyl, hyc, by rw [List.take_succ_cons, newest?_cons, Option.or_none]⟩

end

end Bands

variable {α : Type} [Arith α]

/-! ## The inputs of a position -/

omit [Arith α] in
theorem Reach.zip_getElem? {high low close : List α} {i : Nat} {r : Reach α}
    (h : (Reach.zip high low close)[i]? = some r) :
    high[i]? = some r.high ∧ low[i]? = some r.low ∧ close[i]? = some r.close := by
  rw [Reach.zip, List.getElem?_zipWith_eq_some] at h
  obtain ⟨⟨a, b⟩, c, hab, hc, rfl⟩ := h
  rw [List.zip, List.getElem?_zipWith_eq_some] at hab
  obtain ⟨a, b, ha, hb, hab⟩ := hab
  cases hab
  exact ⟨ha, hb, hc⟩

/-- The bar, the average range and the close before it that make the input of a position. -/
theorem bandInputs_getElem? {high low close : List α} {factor : α} {period i : Nat}
    {x : BandInput α} (h : (bandInputs high low close factor period)[i]? = some x) :
    ∃ r range, (Reach.zip high low close)[i]? = some r ∧
      (atr high low close period)[i]? = some range ∧
      x.upper = (r.high + r.low) / 2 + factor * range ∧
      x.lower = (r.high + r.low) / 2 - factor * range ∧ x.close = r.close ∧
      (Arith.nan :: (Reach.zip high low close).map (·.close))[i]? = some x.previousClose := by
  rw [bandInputs, List.getElem?_zipWith_eq_some] at h
  obtain ⟨⟨r, range⟩, c, hr, hc, rfl⟩ := h
  rw [List.zip, List.getElem?_zipWith_eq_some] at hr
  obtain ⟨r', range', hr, hrange, hpair⟩ := hr
  cases hpair
  exact ⟨r, range, hr, hrange, rfl, rfl, rfl, hc⟩

theorem supertrendBands_eq (high low close : List α) (factor : α) {period : Nat} (h : 1 ≤ period) :
    supertrendBands high low close factor period =
      List.replicate (min period (bandInputs high low close factor period).length) none ++
        Bands.trace none ((bandInputs high low close factor period).drop period) := by
  rw [supertrendBands]
  simp only [if_neg (show ¬ period = 0 by omega), List.map_const', List.length_take]

/-- The bands of a position come from its input and from the newest bands before it. -/
theorem supertrendBands_getElem? {high low close : List α} {factor : α} {period i : Nat}
    {b : Bands α} (hperiod : 1 ≤ period)
    (h : (supertrendBands high low close factor period)[i]? = some (some b)) :
    period ≤ i ∧ ∃ x, (bandInputs high low close factor period)[i]? = some x ∧
      Arith.isNaN x.upper = false ∧ Arith.isNaN x.lower = false ∧ Arith.isNaN x.close = false ∧
      b = Bands.after
        (Bands.newest? ((supertrendBands high low close factor period).take i)) x := by
  rw [supertrendBands_eq high low close factor hperiod] at h ⊢
  generalize bandInputs high low close factor period = inputs at h ⊢
  rcases Nat.lt_or_ge i (min period inputs.length) with hi | hi
  · rw [List.getElem?_append_left (by simpa using hi), List.getElem?_replicate, if_pos hi] at h
    exact nomatch h
  rw [List.getElem?_append_right (by simpa using hi), List.length_replicate] at h
  obtain ⟨x, hx, hu, hl, hc, hb⟩ := Bands.trace_getElem? h
  rw [List.getElem?_drop] at hx
  have hlt : period + (i - min period inputs.length) < inputs.length :=
    (List.getElem?_eq_some_iff.1 hx).1
  have hmin : min period inputs.length = period := by omega
  rw [hmin] at hi hx hb ⊢
  rw [Nat.add_sub_of_le hi] at hx
  refine ⟨hi, x, hx, hu, hl, hc, ?_⟩
  rw [hb, List.take_append, List.take_replicate, Nat.min_eq_right hi, List.length_replicate,
    Bands.newest?_replicate_none, Option.or_none]

/-! ## The average range is not negative -/

/-- The bars of three lists in order: no low is above its close and no close above its high. -/
def Ordered (bars : List (Reach Exact)) : Prop := ∀ r ∈ bars, r.low ≤ r.close ∧ r.close ≤ r.high

theorem Reach.trueRange_nonneg {r : Reach Exact} (h : r.low ≤ r.high) (c : Option Exact) :
    (r.trueRange c true).Nonneg := by
  have hrange : (r.high - r.low).Nonneg := Exact.nonneg_sub h
  simp only [Reach.trueRange]
  split
  · exact (hrange.max (Exact.nonneg_abs _)).max (Exact.nonneg_abs _)
  · exact hrange

/-- A smoothed average of numbers that are not negative, with a weight that leaves both shares at
least zero. -/
structure SmoothedState.Nonneg (s : SmoothedState Exact) : Prop where
  weight : s.weight.Nonneg
  rest : (1 - s.weight).Nonneg
  sum : s.seedSum.Nonneg
  value : ∀ v ∈ s.value, v.Nonneg

theorem SmoothedState.Nonneg.next {s : SmoothedState Exact} {x : Exact} (hs : s.Nonneg)
    (hx : x.Nonneg) : (s.next x).1.Nonneg ∧ (s.next x).2.Nonneg := by
  obtain ⟨hw, hr, hsum, hv⟩ := hs
  have hsum' := hsum.add hx
  unfold SmoothedState.next
  split
  · exact ⟨True.intro, hw, hr, hsum, hv⟩
  · split
    next v hsome =>
      have hnew := (hx.mul hw).add ((hv v hsome).mul hr)
      exact ⟨hnew, hw, hr, hsum, by simpa using hnew⟩
    next hnone =>
      unfold SmoothedState.seed
      dsimp only
      split
      · exact ⟨True.intro, hw, hr, hsum', by simp [hnone]⟩
      · have hfirst : ((s.seedSum + x) / Arith.ofCount s.period).Nonneg := by
          rw [Exact.ofCount_eq]
          exact hsum'.div (Nat.cast_nonneg _)
        exact ⟨hfirst, hw, hr, hsum', by simpa using hfirst⟩

theorem SmoothedState.rma_nonneg (period : Nat) :
    (SmoothedState.rma period : SmoothedState Exact).Nonneg := by
  have hp : (1 : ℝ) ≤ (max period 1 : ℕ) := by exact_mod_cast le_max_right period 1
  have hdiv : (1 : Exact) / Arith.ofCount (Nat.max period 1) = .fin (1 / (max period 1 : ℕ)) := by
    have hne : ((Nat.max period 1 : ℕ) : ℝ) ≠ 0 := ne_of_gt (zero_lt_one.trans_le hp)
    rw [Exact.numeral_eq, Exact.ofCount_eq, Exact.fin_div _ hne, Nat.cast_one]
  have hle : 1 / ((max period 1 : ℕ) : ℝ) ≤ 1 := by
    rw [div_le_one (by linarith)]
    exact hp
  refine ⟨?_, ?_, ?_, nofun⟩
  · change ((1 : Exact) / Arith.ofCount (Nat.max period 1)).Nonneg
    rw [hdiv]
    exact div_nonneg zero_le_one (by linarith)
  · change ((1 : Exact) - 1 / Arith.ofCount (Nat.max period 1)).Nonneg
    rw [hdiv, Exact.numeral_eq, Exact.fin_sub]
    change (0 : ℝ) ≤ _
    simpa using hle
  · change (0 : Exact).Nonneg
    rw [Exact.numeral_eq]
    exact Nat.cast_nonneg _

theorem RangeState.replay_nonneg {s : RangeState Exact} {bars : List (Reach Exact)}
    (hs : s.average.Nonneg) (hbars : Ordered bars) : ∀ y ∈ replay s bars, y.Nonneg := by
  induction bars generalizing s with
  | nil => exact fun _ h => nomatch h
  | cons r bars ih =>
    obtain ⟨⟨hl, hh⟩, hbars⟩ := List.forall_mem_cons.1 hbars
    have hstep : (s.next r).1.Nonneg ∧ (s.next r).2.average.Nonneg := by
      unfold RangeState.next
      split
      · exact ⟨True.intro, hs⟩
      · exact hs.next (Reach.trueRange_nonneg (Exact.le_trans hl hh) _)
    exact List.forall_mem_cons.2 ⟨hstep.1, ih hstep.2 hbars⟩

theorem atr_nonneg {high low close : List Exact} (h : Ordered (Reach.zip high low close))
    (period : Nat) : ∀ y ∈ atr high low close period, y.Nonneg :=
  RangeState.replay_nonneg (SmoothedState.rma_nonneg period) h

/-! ## All positions -/

/-- The newest direction before a position. -/
def directionBefore {α : Type} [Arith α] (direction : List α) (i : Nat) : Option α :=
  ((direction.take i).filter (!Arith.isNaN ·)).getLast?

/-- The trend turns at position `i`, on a close that is further than `factor` average ranges from the
middle of its bar. -/
def TurnsOutside (high low close : List Exact) (factor : Exact) (period i : Nat) : Prop :=
  ∃ h l c range before now, high[i]? = some h ∧ low[i]? = some l ∧ close[i]? = some c ∧
    (atr high low close period)[i]? = some range ∧
    directionBefore (supertrend high low close factor period).2 i = some before ∧
    (supertrend high low close factor period).2[i]? = some now ∧ before ≠ now ∧
    (c < (h + l) / 2 - factor * range ∨ (h + l) / 2 + factor * range < c)

/-- A line with its directions is on the right side of the closes, but for the positions of
`except`: there it may be on the wrong side, and from there the next position may move it against
the trend. -/
structure RightSide (value direction close : List Exact) (except : Nat → Prop) : Prop where
  /-- There is a direction exactly where there is a line. -/
  directed : ∀ {i : Nat} {a : Exact}, value[i]? = some a →
    (a ≠ .nan ↔ direction[i]? = some 1 ∨ direction[i]? = some (-1))
  below : ∀ {i : Nat} {a c : Exact}, value[i]? = some a → direction[i]? = some 1 → close[i]? = some c →
    ¬ except i → a ≤ c
  above : ∀ {i : Nat} {a c : Exact}, value[i]? = some a → direction[i]? = some (-1) → close[i]? = some c →
    ¬ except i → c ≤ a
  rises : ∀ {i j : Nat} {a b : Exact}, i ≤ j → (∀ k, i ≤ k → k ≤ j → direction[k]? = some 1) →
    value[i]? = some a → value[j]? = some b → ¬ except i → a ≤ b
  falls : ∀ {i j : Nat} {a b : Exact}, i ≤ j → (∀ k, i ≤ k → k ≤ j → direction[k]? = some (-1)) →
    value[i]? = some a → value[j]? = some b → ¬ except i → b ≤ a

section
variable {high low close : List Exact} {factor : Exact} {period i : Nat}

theorem direction_up : (Trend.up.direction : Exact) = .fin 1 := by
  rw [Trend.direction, Exact.numeral_eq, Nat.cast_one]

theorem direction_down : (Trend.down.direction : Exact) = .fin (-1) := by
  rw [Trend.direction, Exact.numeral_eq, Exact.neg_fin, Nat.cast_one]

/-- The input of a position after the first `period` ones, where it is available. -/
theorem bandInputs_proper (hbars : Ordered (Reach.zip high low close)) (hfactor : 0 ≤ factor)
    {x : BandInput Exact} (h : (bandInputs high low close factor period)[i]? = some x)
    (hi : 1 ≤ i) (hu : Arith.isNaN x.upper = false) (hl : Arith.isNaN x.lower = false)
    (hc : Arith.isNaN x.close = false) : x.Proper := by
  obtain ⟨r, range, hr, hrange, hxu, hxl, hxc, hprev⟩ := bandInputs_getElem? h
  rw [Exact.available_iff] at hu hl hc
  obtain ⟨i, rfl⟩ : ∃ j, i = j + 1 := ⟨i - 1, by omega⟩
  rw [List.getElem?_cons_succ, List.getElem?_map, Option.map_eq_some_iff] at hprev
  obtain ⟨q, hq, hprev⟩ := hprev
  refine ⟨hu, hl, hc, ?_, ?_⟩
  · rw [← hprev]
    exact (Exact.ne_nan_of_le (hbars q (List.mem_of_getElem? hq)).1).2
  · rw [hxu] at hu ⊢
    rw [hxl] at hl ⊢
    exact Exact.sub_le_add ((Exact.nonneg_of_le hfactor).mul
      (atr_nonneg hbars period _ (List.mem_of_getElem? hrange))) hl hu

/-- What a position with bands shows. -/
theorem shown_of_bands {b : Bands Exact}
    (h : (supertrendBands high low close factor period)[i]? = some (some b)) :
    (supertrend high low close factor period).1[i]? = some b.line ∧
      (supertrend high low close factor period).2[i]? = some b.trend.direction := by
  simp [supertrend, h]

/-- A direction is the one of the bands there. -/
theorem bands_of_shown {t : Trend}
    (h : (supertrend high low close factor period).2[i]? = some t.direction) :
    ∃ b, (supertrendBands high low close factor period)[i]? = some (some b) ∧ b.trend = t := by
  rw [supertrend, List.getElem?_map, Option.map_eq_some_iff] at h
  obtain ⟨b, hb, h⟩ := h
  cases b with
  | none => cases t <;> simp [direction_up, direction_down] at h
  | some b =>
    refine ⟨b, hb, ?_⟩
    obtain ⟨upper, lower, trend⟩ := b
    cases trend <;> cases t <;> simp [direction_up, direction_down] at h ⊢ <;> norm_num at h

theorem directionBefore_eq (i : Nat) :
    directionBefore (supertrend high low close factor period).2 i =
      (Bands.newest? ((supertrendBands high low close factor period).take i)).map
        (·.trend.direction) := by
  rw [directionBefore, supertrend, ← List.map_take]
  generalize (supertrendBands high low close factor period).take i = bands
  rw [Bands.newest?, ← List.getLast?_map]
  congr 1
  induction bands with
  | nil => rfl
  | cons b bands ih =>
    cases b with
    | none => simpa [List.reduceOption] using ih
    | some b =>
      obtain ⟨upper, lower, trend⟩ := b
      cases trend <;> simp_all [direction_up, direction_down]

/-- The bands of a position: available, made of an available input and of the newest bands before,
and on the right side of the close unless the trend turns on a close far from its middle. -/
theorem bands_at (hbars : Ordered (Reach.zip high low close)) (hfactor : 0 ≤ factor)
    (hperiod : 1 ≤ period) {b : Bands Exact}
    (h : (supertrendBands high low close factor period)[i]? = some (some b)) :
    b.Proper ∧ ∃ x, x.Proper ∧ close[i]? = some x.close ∧
      (Arith.nan :: (Reach.zip high low close).map (·.close))[i]? = some x.previousClose ∧
      b = Bands.after (Bands.newest? ((supertrendBands high low close factor period).take i)) x ∧
      (¬ TurnsOutside high low close factor period i → b.OnSide x.close) := by
  induction i using Nat.strong_induction_on generalizing b with
  | _ i ih =>
    obtain ⟨hi, x, hx, hu, hl, hc, hb⟩ := supertrendBands_getElem? hperiod h
    have hproper := bandInputs_proper hbars hfactor hx (by omega) hu hl hc
    obtain ⟨r, range, hr, hrange, hxu, hxl, hxc, hprev⟩ := bandInputs_getElem? hx
    obtain ⟨hh, hlow, hclose⟩ := Reach.zip_getElem? hr
    have hbefore : ∀ p ∈ Bands.newest? ((supertrendBands high low close factor period).take i),
        p.Proper := by
      intro p hp
      obtain ⟨j, hj⟩ := List.mem_iff_getElem?.1 (Bands.mem_of_newest? hp)
      rw [List.getElem?_take] at hj
      split at hj
      · exact (ih j ‹_› hj).1
      · exact nomatch hj
    refine ⟨hb ▸ Bands.Proper.after hbefore hproper.upper hproper.lower,
      x, hproper, hxc ▸ hclose, hprev, hb, fun hturn => ?_⟩
    cases hnewest : Bands.newest? ((supertrendBands high low close factor period).take i) with
    | none =>
      rw [hb, hnewest]
      exact Bands.first_onSide hproper
    | some p =>
      rw [hnewest] at hb hbefore
      rw [hb]
      refine Bands.next_onSide (hbefore p rfl) hproper fun hne hout => hturn ?_
      rw [BandInput.Outside, hxu, hxl, hxc] at hout
      refine ⟨r.high, r.low, r.close, range, p.trend.direction, b.trend.direction, hh, hlow, hclose,
        hrange, ?_, (shown_of_bands h).2, ?_, hout⟩
      · rw [directionBefore_eq, hnewest, Option.map_some]
      · rw [hb]
        intro heq
        refine hne ?_
        revert heq
        change p.trend.direction = (p.next x).trend.direction → _
        cases p.trend <;> cases (p.next x).trend <;> simp [direction_up, direction_down] <;> norm_num

/-- The bands of two positions that follow each other. -/
theorem bands_succ (hbars : Ordered (Reach.zip high low close)) (hfactor : 0 ≤ factor)
    (hperiod : 1 ≤ period) {b b' : Bands Exact}
    (h : (supertrendBands high low close factor period)[i]? = some (some b))
    (h' : (supertrendBands high low close factor period)[i + 1]? = some (some b')) :
    ∃ x x' : BandInput Exact, x.Proper ∧ x'.Proper ∧ close[i]? = some x.close ∧
      close[i + 1]? = some x'.close ∧
      x'.previousClose = x.close ∧ b' = b.next x' := by
  obtain ⟨-, x, hx, hclose, -, -, -⟩ := bands_at hbars hfactor hperiod h
  obtain ⟨-, x', hx', hclose', hprev, hb', -⟩ := bands_at hbars hfactor hperiod h'
  refine ⟨x, x', hx, hx', hclose, hclose', ?_, ?_⟩
  · rw [List.getElem?_cons_succ, List.getElem?_map, Option.map_eq_some_iff] at hprev
    obtain ⟨r, hr, hprev⟩ := hprev
    rw [← hprev]
    exact Option.some.inj ((Reach.zip_getElem? hr).2.2.symm.trans hclose)
  · rw [hb', List.take_add_one, h, Option.toList_some, Bands.newest?_concat]
    rfl

/-- Over a stretch of one direction the line does not move against the trend, unless the trend
turned at its start on a close far from the middle. -/
theorem stretch (hbars : Ordered (Reach.zip high low close)) (hfactor : 0 ≤ factor)
    (hperiod : 1 ≤ period) {t : Trend} {j : Nat} (hij : i ≤ j)
    (hdir : ∀ k, i ≤ k → k ≤ j →
      (supertrend high low close factor period).2[k]? = some t.direction)
    (hturn : ¬ TurnsOutside high low close factor period i) :
    ∃ b b', (supertrendBands high low close factor period)[i]? = some (some b) ∧
      (supertrendBands high low close factor period)[j]? = some (some b') ∧
      b.trend = t ∧ b'.trend = t ∧ (∀ c, close[j]? = some c → b'.OnSide c) ∧
      (t = .up → b.lower ≤ b'.lower) ∧ (t = .down → b'.upper ≤ b.upper) := by
  induction j, hij using Nat.le_induction with
  | base =>
    obtain ⟨b, hb, rfl⟩ := bands_of_shown (hdir i le_rfl le_rfl)
    obtain ⟨hproper, x, -, hclose, -, -, hside⟩ := bands_at hbars hfactor hperiod hb
    refine ⟨b, b, hb, hb, rfl, rfl, fun c hc => ?_, fun _ => Exact.le_refl hproper.lower,
      fun _ => Exact.le_refl hproper.upper⟩
    rw [hclose, Option.some_inj] at hc
    exact hc ▸ hside hturn
  | succ j hij ih =>
    obtain ⟨b, b', hb, hb', hbt, ht, hside, hup, hdown⟩ := ih fun k hk hkj => hdir k hk (by omega)
    obtain ⟨b'', hb'', ht'⟩ := bands_of_shown (hdir (j + 1) (by omega) le_rfl)
    obtain ⟨x, x', hx, hx', hclose, hclose', hprev, rfl⟩ := bands_succ hbars hfactor hperiod hb' hb''
    have hproper := (bands_at hbars hfactor hperiod hb').1
    have hs := hside _ hclose
    rw [← hprev] at hs
    refine ⟨b, _, hb, hb'', hbt, ht', fun c hc => ?_, fun hu => ?_, fun hd => ?_⟩
    · rw [hclose', Option.some_inj] at hc
      exact hc ▸ Bands.next_onSide hproper hx' fun hne => absurd (ht.trans ht'.symm) hne
    · exact Exact.le_trans (hup hu) (Bands.lower_le_next hproper hx' (hs.1 (ht.trans hu)))
    · exact Exact.le_trans (Bands.next_upper_le hproper hx' (hs.2 (ht.trans hd))) (hdown hd)

/-- In exact arithmetic the line of a trend up is at or below the close and does not fall while the
trend lasts, and the line of a trend down is at or above the close and does not rise, but for the
positions where a close far from the middle of its bar turns the trend. -/
theorem supertrend_sides (hbars : Ordered (Reach.zip high low close)) (hfactor : 0 ≤ factor)
    (hperiod : 1 ≤ period) :
    RightSide (supertrend high low close factor period).1
      (supertrend high low close factor period).2 close
      (TurnsOutside high low close factor period) := by
  have hstretch {t : Trend} {i j : Nat} := stretch (t := t) (i := i) (j := j) hbars hfactor hperiod
  have hline {i : Nat} {a : Exact} {b : Bands Exact}
      (ha : (supertrend high low close factor period).1[i]? = some a)
      (hb : (supertrendBands high low close factor period)[i]? = some (some b)) : a = b.line :=
    Option.some.inj (ha.symm.trans (shown_of_bands hb).1)
  refine ⟨fun {i a} ha => ⟨fun hne => ?_, fun hd => ?_⟩, fun {i a c} ha hd hc hturn => ?_,
    fun {i a c} ha hd hc hturn => ?_, fun {i j a b} hij hd ha hb hturn => ?_,
    fun {i j a b} hij hd ha hb hturn => ?_⟩
  · rw [supertrend, List.getElem?_map, Option.map_eq_some_iff] at ha
    obtain ⟨_ | b, hb, rfl⟩ := ha
    · exact absurd rfl hne
    · rw [(shown_of_bands hb).2]
      cases b.trend
      · exact .inl rfl
      · exact .inr rfl
  · obtain ⟨b, hb⟩ : ∃ b, (supertrendBands high low close factor period)[i]? = some (some b) := by
      rcases hd with hd | hd
      · exact (bands_of_shown (t := .up) hd).imp fun _ => And.left
      · exact (bands_of_shown (t := .down) hd).imp fun _ => And.left
    obtain ⟨hproper, -⟩ := bands_at hbars hfactor hperiod hb
    rw [hline ha hb, Bands.line]
    split
    · exact hproper.lower
    · exact hproper.upper
  · obtain ⟨b, b', hb, hb', -, ht, hside, -, -⟩ :=
      hstretch (t := .up) le_rfl (fun k hk hki => le_antisymm hk hki ▸ hd) hturn
    rw [hline ha hb', Bands.line, ht]
    exact (hside c hc).1 ht
  · obtain ⟨b, b', hb, hb', -, ht, hside, -, -⟩ :=
      hstretch (t := .down) le_rfl (fun k hk hki => le_antisymm hk hki ▸ hd) hturn
    rw [hline ha hb', Bands.line, ht]
    exact (hside c hc).2 ht
  · obtain ⟨b, b', hbi, hbj, ht, ht', -, hle, -⟩ := hstretch (t := .up) hij hd hturn
    rw [hline ha hbi, hline hb hbj, Bands.line, Bands.line, ht, ht']
    exact hle rfl
  · obtain ⟨b, b', hbi, hbj, ht, ht', -, -, hle⟩ := hstretch (t := .down) hij hd hturn
    rw [hline ha hbi, hline hb hbj, Bands.line, Bands.line, ht, ht']
    exact hle rfl

end

/-! ## A line on the wrong side -/

/-- Four bars whose third one falls below the lower band and closes above its own upper band. -/
noncomputable def gapHigh : List Exact := [10, 10, 8, 15 / 2]

noncomputable def gapLow : List Exact := [10, 10, 4, 13 / 2]

noncomputable def gapClose : List Exact := [10, 10, 7, 7]

theorem gapHigh_eq : gapHigh = [.fin 10, .fin 10, .fin 8, .fin (15 / 2)] := by
  simp [gapHigh, Exact.fin_div _ two_ne_zero]

theorem gapLow_eq : gapLow = [.fin 10, .fin 10, .fin 4, .fin (13 / 2)] := by
  simp [gapLow, Exact.fin_div _ two_ne_zero]

theorem gapClose_eq : gapClose = [.fin 10, .fin 10, .fin 7, .fin 7] := by
  simp [gapClose]

theorem gap_ordered : Ordered (Reach.zip gapHigh gapLow gapClose) := by
  simp [Ordered, Reach.zip, gapHigh_eq, gapLow_eq, gapClose_eq]
  norm_num

theorem supertrend_sides_gap :
    Ordered (Reach.zip gapHigh gapLow gapClose) ∧ (0 : Exact) ≤ .fin (1 / 8) ∧
      RightSide (supertrend gapHigh gapLow gapClose (.fin (1 / 8)) 1).1
        (supertrend gapHigh gapLow gapClose (.fin (1 / 8)) 1).2 gapClose
        (TurnsOutside gapHigh gapLow gapClose (.fin (1 / 8)) 1) := by
  have hfactor : (0 : Exact) ≤ .fin (1 / 8) := by
    rw [Exact.numeral_eq, Exact.fin_le]
    norm_num
  exact ⟨gap_ordered, hfactor, supertrend_sides gap_ordered hfactor le_rfl⟩

theorem gap_ranges : atr gapHigh gapLow gapClose 1 = [.fin 0, .fin 0, .fin 6, .fin 1] := by
  simp [gapHigh_eq, gapLow_eq, gapClose_eq, atr, Reach.zip, replay, feed, Streaming.next,
    RangeState.next, RangeState.fresh, Reach.hasNaN, SmoothedState.rma, SmoothedState.fresh,
    SmoothedState.next, SmoothedState.seed, Reach.trueRange, Exact.fin_div _ one_ne_zero,
    Option.filter_some]
  norm_num

theorem gap_bands : supertrendBands gapHigh gapLow gapClose (.fin (1 / 8)) 1 =
    [none, some ⟨.fin 10, .fin 10, .down⟩, some ⟨.fin (27 / 4), .fin 10, .up⟩,
      some ⟨.fin (57 / 8), .fin (55 / 8), .up⟩] := by
  have hranges := gap_ranges
  rw [atr] at hranges
  rw [supertrendBands, bandInputs, hranges]
  simp [gapHigh_eq, gapLow_eq, gapClose_eq, Reach.zip, Bands.trace, Bands.first, Bands.next,
    Exact.fin_div _ two_ne_zero]
  norm_num

/-- On these bars the trend turns up with the line at 10 above the close at 7, and the line falls at
the next bar while the trend stays up. -/
theorem supertrend_wrong_side :
    Ordered (Reach.zip gapHigh gapLow gapClose) ∧
      (supertrend gapHigh gapLow gapClose (.fin (1 / 8)) 1).1 =
        [.nan, .fin 10, .fin 10, .fin (55 / 8)] ∧
      (supertrend gapHigh gapLow gapClose (.fin (1 / 8)) 1).2 =
        [.nan, .fin (-1), .fin 1, .fin 1] ∧
      gapClose[2]? = some (.fin 7) ∧ ¬ Exact.fin 10 ≤ .fin 7 ∧
      ¬ Exact.fin 10 ≤ .fin (55 / 8) := by
  refine ⟨gap_ordered, ?_, ?_, by rw [gapClose_eq]; rfl, ?_, ?_⟩
  · rw [supertrend, gap_bands]
    simp [Bands.line]
  · rw [supertrend, gap_bands]
    simp [direction_up, direction_down]
  · rw [Exact.fin_le]
    norm_num
  · rw [Exact.fin_le]
    norm_num

end BarScript
