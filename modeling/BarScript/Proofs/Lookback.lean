import Mathlib
import BarScript.Indicator.Anchored
import BarScript.Indicator.Kind
import BarScript.Proofs.TrendGap
import BarScript.Proofs.WarmUp

/-!
# The lookback is the warm-up

A kind of indicator declares how many bars it looks back on (`Kind.lookback`), and its algorithm
begins to give numbers somewhere (`Warm`). Over finite inputs both are the same place: an output is a
number exactly if as many inputs as the lookback have been seen (`available_iff_lookback`). Left out
are the indicators that divide by their inputs.
-/

namespace BarScript

/-! ## Warm series -/

/-- Where a series ends before it is available, it does not matter how long one would have to wait. -/
theorem Warm.of_min_eq {k l : Nat} {ys : List Exact} (h : Warm k ys)
    (heq : min k ys.length = min l ys.length) : Warm l ys := by
  rw [warm_iff] at h ⊢
  intro i y hy
  have hlt := (List.getElem?_eq_some_iff.1 hy).1
  obtain ⟨hbefore, hafter⟩ := h i y hy
  exact ⟨fun hi => hbefore (by omega), fun hi => hafter (by omega)⟩

theorem warm_replicate_append (n : Nat) {ys : List Exact} (h : ∀ y ∈ ys, ∃ x, y = .fin x) :
    Warm n (List.replicate n .nan ++ ys) := by
  induction n with
  | zero => exact .of_finite h
  | succ n ih => exact ⟨rfl, ih⟩

/-! ## The supertrend -/

/-- The numbers of a bar that its bands are made of are finite. -/
structure BandInput.Finite (x : BandInput Exact) : Prop where
  upper : ∃ u, x.upper = .fin u
  lower : ∃ l, x.lower = .fin l
  close : ∃ c, x.close = .fin c

namespace Bands

structure Finite (b : Bands Exact) : Prop where
  upper : ∃ u, b.upper = .fin u
  lower : ∃ l, b.lower = .fin l

theorem Finite.line {b : Bands Exact} (h : b.Finite) : ∃ x, b.line = .fin x := by
  rw [Bands.line]
  cases b.trend with
  | up => exact h.lower
  | down => exact h.upper

/-- A band stays or becomes the one of the bar. -/
theorem Finite.after {state : Option (Bands Exact)} (h : ∀ b ∈ state, b.Finite)
    {x : BandInput Exact} (hx : x.Finite) : (after state x).Finite := by
  cases state with
  | none => exact ⟨hx.upper, hx.lower⟩
  | some b =>
    obtain ⟨hupper, hlower⟩ := h b rfl
    constructor <;> simp only [Bands.after, Bands.next]
    · split
      · exact hx.upper
      · exact hupper
    · split
      · exact hx.lower
      · exact hlower

/-- Bars with finite numbers have finite bands, all of them. -/
theorem trace_finite {state : Option (Bands Exact)} (hstate : ∀ b ∈ state, b.Finite)
    {xs : List (BandInput Exact)} (hxs : ∀ x ∈ xs, x.Finite) :
    ∀ o ∈ trace state xs, ∃ b, o = some b ∧ b.Finite := by
  induction xs generalizing state with
  | nil => exact List.forall_mem_nil _
  | cons x xs ih =>
    obtain ⟨hx, hrest⟩ := List.forall_mem_cons.1 hxs
    have available {a : Exact} (ha : ∃ r, a = .fin r) : Arith.isNaN a = false := by
      obtain ⟨r, rfl⟩ := ha
      exact Exact.isNaN_fin r
    rw [trace_available state xs (available hx.upper) (available hx.lower) (available hx.close)]
    have hafter := Finite.after hstate hx
    refine List.forall_mem_cons.2 ⟨⟨_, rfl, hafter⟩, ih (fun b hb => ?_) hrest⟩
    cases hb
    exact hafter

end Bands

section

variable {high low close : List Exact} {period : Nat}
variable (hperiod : 1 ≤ period) (hbars : ∀ r ∈ Reach.zip high low close, r.Finite) (factor : ℝ)
include hperiod hbars

/-- From the first average range on the inputs of the bands are finite. -/
theorem bandInputs_finite {i : Nat} (hi : period ≤ i + 1) {x : BandInput Exact}
    (h : (bandInputs high low close (.fin factor) period)[i]? = some x) : x.Finite := by
  obtain ⟨r, range, hr, hrange, hupper, hlower, hclose, -⟩ := bandInputs_getElem? h
  obtain ⟨top, bottom, c, rfl⟩ := hbars r (List.mem_of_getElem? hr)
  obtain ⟨a, rfl⟩ := (warm_iff.1 (warm_ranges hperiod hbars) i range hrange).2 (by omega)
  have htwo : ((2 : ℕ) : ℝ) ≠ 0 := by norm_num
  have hmiddle : (Exact.fin top + .fin bottom) / 2 = .fin ((top + bottom) / (2 : ℕ)) := by
    rw [Exact.fin_add, Exact.numeral_eq, Exact.fin_div _ htwo]
  rw [hmiddle, Exact.fin_mul] at hupper hlower
  exact ⟨⟨_, hupper⟩, ⟨_, hlower.trans (Exact.fin_sub ..)⟩, ⟨c, hclose⟩⟩

theorem warm_supertrend :
    Warm period (supertrend high low close (.fin factor) period).1 ∧
      Warm period (supertrend high low close (.fin factor) period).2 := by
  let inputs := bandInputs high low close (.fin factor) period
  have hinputs : ∀ x ∈ inputs.drop period, x.Finite := by
    intro x hx
    obtain ⟨i, hi⟩ := List.mem_iff_getElem?.1 hx
    rw [List.getElem?_drop] at hi
    exact bandInputs_finite hperiod hbars factor (by omega) hi
  have hbands : ∀ o ∈ Bands.trace none (inputs.drop period), ∃ b, o = some b ∧ b.Finite :=
    Bands.trace_finite (by simp) hinputs
  -- a column that shows something finite of every band
  have column (show? : Option (Bands Exact) → Exact) (hnone : show? none = .nan)
      (hsome : ∀ b : Bands Exact, b.Finite → ∃ v, show? (some b) = .fin v) :
      Warm period ((supertrendBands high low close (.fin factor) period).map show?) := by
    rw [supertrendBands_eq _ _ _ _ hperiod, List.map_append, List.map_replicate, hnone]
    have hfinite : ∀ y ∈ (Bands.trace none (inputs.drop period)).map show?, ∃ v, y = .fin v := by
      rw [List.forall_mem_map]
      intro o ho
      obtain ⟨b, rfl, hb⟩ := hbands o ho
      exact hsome b hb
    refine (warm_replicate_append _ hfinite).of_min_eq ?_
    rw [List.length_append, List.length_replicate, List.length_map, Bands.length_trace,
      List.length_drop]
    change min (min period inputs.length) (min period inputs.length + (inputs.length - period)) =
      min period (min period inputs.length + (inputs.length - period))
    omega
  refine ⟨column _ rfl fun b hb => hb.line, column _ rfl fun b _ => ?_⟩
  obtain ⟨_, _, trend⟩ := b
  cases trend with
  | up => exact ⟨1, direction_up⟩
  | down => exact ⟨-1, direction_down⟩

end

/-! ## The kinds -/

/-- What indicators are computed from. -/
structure Inputs (α : Type) where
  source : List α
  volume : List α
  high : List α
  low : List α
  close : List α
  /-- The distance of the bands of a supertrend. -/
  factor : α

/-- The bars of a market. -/
def Inputs.bars {α : Type} (x : Inputs α) : List (Reach α) := Reach.zip x.high x.low x.close

/-- All numbers but the volumes are finite. -/
structure Inputs.Finite (x : Inputs Exact) : Prop where
  source : ∀ v ∈ x.source, ∃ r, v = .fin r
  bars : ∀ r ∈ x.bars, r.Finite
  factor : ∃ r, x.factor = .fin r

namespace Kind

/-- The outputs of an indicator, in one column for each number that it gives. -/
def columns {α : Type} [Arith α] (x : Inputs α) : Kind → List (List α)
  | sma p => [BarScript.sma x.source p]
  | ema p => [BarScript.ema x.source p]
  | rma p => [BarScript.rma x.source p]
  | wma p => [BarScript.wma x.source p]
  | hma p => [BarScript.hma x.source p]
  | vwma p => [BarScript.vwma x.source x.volume p]
  | dema p => [BarScript.dema x.source p]
  | tema p => [BarScript.tema x.source p]
  | swma => [BarScript.swma x.source]
  | rsi p => [BarScript.rsi x.source p]
  | atr p => [BarScript.atr x.high x.low x.close p]
  | change p => [BarScript.change x.source p]
  | mom p => [BarScript.mom x.source p]
  | roc p => [BarScript.roc x.source p]
  | stdev n biased => [BarScript.stdev x.source n biased]
  | variance n biased => [BarScript.variance x.source n biased]
  | dev p => [BarScript.dev x.source p]
  | highest p => [BarScript.highest x.source p]
  | lowest p => [BarScript.lowest x.source p]
  | median p => [BarScript.median x.source p]
  | linreg n offset => [BarScript.linreg x.source n offset]
  | supertrend _ p =>
    let s := BarScript.supertrend x.high x.low x.close x.factor p
    [s.1, s.2]
  | vwap => [BarScript.vwap x.source x.volume none]

/-- How many positions an indicator has. -/
def positions {α : Type} (x : Inputs α) : Kind → Nat
  | atr _ | supertrend _ _ => x.bars.length
  | vwma _ | vwap => Nat.min x.source.length x.volume.length
  | _ => x.source.length

/-- The kinds, with their parameters, that give a number wherever they have enough inputs. -/
def Regular : Kind → Prop
  | hma p => 2 ≤ p
  | stdev n biased | variance n biased => 1 ≤ n ∧ (biased = false → 2 ≤ n)
  | swma => True
  | vwma _ | roc _ | vwap => False
  | sma p | ema p | rma p | wma p | dema p | tema p | rsi p | atr p | change p | mom p | dev p
  | highest p | lowest p | median p | linreg p _ | supertrend _ p => 1 ≤ p

theorem length_supertrendBands {α : Type} [Arith α] (high low close : List α) (factor : α)
    (period : Nat) :
    (supertrendBands high low close factor period).length = (Reach.zip high low close).length := by
  have hinputs : (bandInputs high low close factor period).length =
      (Reach.zip high low close).length := by
    rw [bandInputs_eq_from, length_bandInputsFrom]
  rw [← hinputs, supertrendBands]
  split
  · exact List.length_map _
  · rw [List.length_append, List.length_map, Bands.length_trace, ← List.length_append,
      List.take_append_drop]

/-- An indicator gives one output for each position. -/
theorem length_columns {α : Type} [Arith α] (x : Inputs α) {k : Kind} (hk : k.Regular) :
    ∀ ys ∈ k.columns x, ys.length = k.positions x := by
  cases k with
  | vwma | roc | vwap => exact hk.elim
  | supertrend => simp [columns, positions, BarScript.supertrend, length_supertrendBands,
      Inputs.bars]
  | _ => simp [columns, positions, Inputs.bars, BarScript.sma, BarScript.ema, BarScript.rma,
      BarScript.wma, BarScript.hma, BarScript.dema, BarScript.tema, BarScript.swma, BarScript.rsi,
      BarScript.atr, BarScript.change, BarScript.mom, lagged, BarScript.stdev, BarScript.variance,
      BarScript.dev, BarScript.highest, BarScript.lowest, BarScript.median, BarScript.linreg]

/-- How many outputs come before the first number, with counts that do not stop. -/
def warmUp : Kind → Nat
  | hma p => p - 1 + hullSmoothing p - 1
  | dema p => 2 * (p - 1)
  | tema p => 3 * (p - 1)
  | swma => 3
  | rsi p | change p | mom p | roc p | supertrend _ p => p
  | vwap => 0
  | sma p | ema p | rma p | wma p | vwma p | atr p | dev p | highest p | lowest p | median p
  | stdev p _ | variance p _ | linreg p _ => p - 1

/-- **The algorithms warm up** as long as `warmUp` says. -/
theorem warm_columns {x : Inputs Exact} (hx : x.Finite) {k : Kind} (hk : k.Regular) :
    ∀ ys ∈ k.columns x, Warm k.warmUp ys := by
  have hsource : Warm 0 x.source := .of_finite hx.source
  have one {w : Nat} {ys : List Exact} (h : Warm w ys) : ∀ zs ∈ [ys], Warm w zs :=
    List.forall_mem_singleton.2 h
  cases k with
  | vwma | roc | vwap => exact hk.elim
  | sma p => exact one (warm_sma hk hsource)
  | ema p =>
    have h := warm_ema hk hsource
    rw [Nat.zero_add] at h
    exact one h
  | rma p =>
    have h := warm_rma hk hsource
    rw [Nat.zero_add] at h
    exact one h
  | wma p =>
    have h := warm_wma hk hsource
    rw [Nat.zero_add] at h
    exact one h
  | hma p => exact one (warm_hma hk hsource)
  | dema p => exact one (warm_dema hk hsource)
  | tema p => exact one (warm_tema hk hsource)
  | swma => exact one (warm_swma hsource)
  | rsi p => exact one (warm_rsi hk hsource)
  | atr p => exact one (warm_ranges hk hx.bars)
  | change p => exact one (warm_change hk hsource)
  | mom p => exact one (warm_change hk hsource)
  | stdev n biased => exact one (warm_stdev hk.1 hk.2 hsource)
  | variance n biased => exact one (warm_variance hk.1 hk.2 hsource)
  | dev p => exact one (warm_dev hk hsource)
  | highest p => exact one (warm_highest hk hsource)
  | lowest p => exact one (warm_lowest hk hsource)
  | median p => exact one (warm_median hk hsource)
  | linreg n offset => exact one (warm_linreg hk offset hsource)
  | supertrend _ p =>
    obtain ⟨factor, hfactor⟩ := hx.factor
    obtain ⟨hline, hdirection⟩ := warm_supertrend hk hx.bars factor
    simp only [columns, hfactor]
    exact List.forall_mem_cons.2 ⟨hline, one hdirection⟩

/-- **The declared lookbacks** are one more than that, as far as series go. -/
theorem min_lookback {k : Kind} (hk : k.Regular) {n : Nat} (hn : n < twoTo 63) :
    min k.warmUp n = min (k.lookback - 1) n := by
  have htwo : twoTo 63 = 9223372036854775808 := rfl
  have hmax : Arith.maxCount = 18446744073709551615 := rfl
  have hadd (a b : Nat) : Arith.addCount a b = min (a + b) Arith.maxCount := rfl
  have hmul (a b : Nat) : Arith.mulCount a b = min (a * b) Arith.maxCount := rfl
  cases k with
  | vwma | roc | vwap => exact hk.elim
  | hma p =>
    have hp : 2 ≤ p := hk
    have hroot : 1 ≤ hullSmoothing p := one_le_hullSmoothing (by omega)
    simp only [warmUp, lookback, hullLookback, hadd]
    generalize hullSmoothing p = smoothing at hroot ⊢
    rw [if_neg (by omega)]
    omega
  | dema p | tema p =>
    simp only [warmUp, lookback, hmul]
    omega
  | rsi p | change p | mom p | supertrend _ p =>
    simp only [warmUp, lookback, hadd]
    omega
  | _ => rfl

end Kind

/-- **The lookback is the warm-up.** Over finite inputs, and with as many of them as fit into memory,
an indicator gives one output for each position, and this output is a number exactly if the inputs
up to there are as many as the lookback of the indicator. -/
theorem available_iff_lookback {x : Inputs Exact} (hx : x.Finite) {k : Kind} (hk : k.Regular)
    (hsize : k.positions x < twoTo 63) :
    ∀ ys ∈ k.columns x, ys.length = k.positions x ∧ ∀ (i : Nat) (hi : i < ys.length),
      ((∃ v, ys[i] = .fin v) ↔ k.lookback ≤ i + 1) ∧ (ys[i] = .nan ↔ i + 1 < k.lookback) := by
  intro ys hys
  have hlength := Kind.length_columns x hk ys hys
  have hwarm : Warm (k.lookback - 1) ys := by
    refine (Kind.warm_columns hx hk ys hys).of_min_eq ?_
    rw [hlength]
    exact Kind.min_lookback hk hsize
  refine ⟨hlength, fun i hi => ?_⟩
  obtain ⟨hbefore, hafter⟩ := warm_iff.1 hwarm i ys[i] (List.getElem?_eq_getElem hi)
  by_cases hready : k.lookback ≤ i + 1
  · obtain ⟨v, hv⟩ := hafter (by omega)
    rw [hv]
    exact ⟨iff_of_true ⟨v, rfl⟩ hready, iff_of_false nofun (by omega)⟩
  · rw [hbefore (by omega)]
    exact ⟨iff_of_false nofun hready, iff_of_true rfl (by omega)⟩

/-- A Hull mean over four bars, the mean over two of a mean over four, looks back on five: of six
outputs the first four are missing. -/
theorem available_iff_lookback_hull :
    let x : Inputs Exact :=
      ⟨[.fin 1, .fin 2, .fin 4, .fin 3, .fin 5, .fin 6], [], [], [], [], .fin 3⟩
    x.Finite ∧ (Kind.hma 4).Regular ∧ (Kind.hma 4).lookback = 5 ∧
      ∀ ys ∈ (Kind.hma 4).columns x, ys.length = 6 ∧ ∀ (i : Nat) (hi : i < ys.length),
        ((∃ v, ys[i] = .fin v) ↔ 5 ≤ i + 1) ∧ (ys[i] = .nan ↔ i + 1 < 5) := by
  intro x
  have hx : x.Finite := ⟨by simp [x], List.forall_mem_nil _, ⟨3, rfl⟩⟩
  have hk : (Kind.hma 4).Regular := show 2 ≤ 4 by decide
  have hlookback : (Kind.hma 4).lookback = 5 := by decide +kernel
  have h := available_iff_lookback hx hk (show 6 < twoTo 63 by decide)
  rw [hlookback] at h
  exact ⟨hx, hk, hlookback, h⟩

end BarScript
