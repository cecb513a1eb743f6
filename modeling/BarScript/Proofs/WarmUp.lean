import Mathlib
import BarScript.Indicator.Difference
import BarScript.Indicator.Dispersion
import BarScript.Indicator.Extreme
import BarScript.Indicator.Mean
import BarScript.Indicator.Regression
import BarScript.Indicator.Smoothed
import BarScript.Indicator.Strength
import BarScript.Indicator.TrueRange
import BarScript.Indicator.Weighted
import BarScript.Proofs.Exact

/-!
# Where indicators become available

`Warm k ys`: the first `k` numbers are unavailable and all others are finite. In exact arithmetic a
series without gaps makes every indicator warm (`warm_sma`, `warm_ema` and so on), and what is warm
can be averaged again: `Warm.windowed` for a function of the trailing window, `Warm.zipWith` for two
series, and `Waits.replay_skipping` for a streaming state that waits for some inputs.
-/

namespace BarScript

/-- The first `k` numbers are unavailable and the others are finite. -/
def Warm : Nat → List Exact → Prop
  | _, [] => True
  | 0, y :: ys => (∃ x, y = .fin x) ∧ Warm 0 ys
  | k + 1, y :: ys => y = .nan ∧ Warm k ys

variable {k l period : Nat} {xs ys : List Exact}

theorem warm_iff : Warm k ys ↔ ∀ (i : Nat) (y : Exact), ys[i]? = some y →
    (i < k → y = .nan) ∧ (k ≤ i → ∃ x, y = .fin x) := by
  induction ys generalizing k with
  | nil => exact ⟨fun _ _ _ h => (nomatch h), fun _ => True.intro⟩
  | cons y ys ih =>
    cases k with
    | zero =>
      rw [Warm, ih]
      constructor
      · rintro ⟨hy, hys⟩ (_ | i) z hz
        · cases hz
          exact ⟨fun h => absurd h (Nat.lt_irrefl _), fun _ => hy⟩
        · exact ⟨fun h => absurd h (Nat.not_lt_zero _), fun _ => (hys i z hz).2 (Nat.zero_le _)⟩
      · intro h
        exact ⟨(h 0 y rfl).2 (Nat.le_refl _), fun i z hz =>
          ⟨fun hi => absurd hi (Nat.not_lt_zero _), fun _ => (h (i + 1) z hz).2 (Nat.zero_le _)⟩⟩
    | succ k =>
      rw [Warm, ih]
      constructor
      · rintro ⟨hy, hys⟩ (_ | i) z hz
        · cases hz
          exact ⟨fun _ => hy, fun h => by omega⟩
        · exact ⟨fun h => (hys i z hz).1 (by omega), fun h => (hys i z hz).2 (by omega)⟩
      · intro h
        exact ⟨(h 0 y rfl).1 (by omega), fun i z hz =>
          ⟨fun hi => (h (i + 1) z hz).1 (by omega), fun hi => (h (i + 1) z hz).2 (by omega)⟩⟩

namespace Warm

/-- The newest number is available once there are more than `k`. -/
theorem lastValue (h : Warm k ys) : Arith.isNaN (lastValue ys) = false ↔ k < ys.length := by
  rcases List.eq_nil_or_concat' ys with rfl | ⟨older, y, rfl⟩
  · simp [BarScript.lastValue]
  · have hlast : BarScript.lastValue (older ++ [y]) = y := by simp [BarScript.lastValue]
    obtain ⟨hbefore, hafter⟩ := warm_iff.1 h older.length y (by simp)
    rw [hlast, List.length_append, List.length_singleton]
    by_cases hk : older.length < k
    · rw [hbefore hk]
      simp only [Exact.isNaN_nan, Bool.true_eq_false, false_iff]
      omega
    · obtain ⟨x, rfl⟩ := hafter (by omega)
      simp only [Exact.isNaN_fin, true_iff]
      omega

theorem of_finite (h : ∀ y ∈ ys, ∃ x, y = .fin x) : Warm 0 ys :=
  warm_iff.2 fun _ _ hy => ⟨fun hi => absurd hi (Nat.not_lt_zero _),
    fun _ => h _ (List.mem_of_getElem? hy)⟩

theorem finite (h : Warm 0 ys) : ∀ y ∈ ys, ∃ x, y = .fin x := by
  intro y hy
  obtain ⟨i, hi⟩ := List.mem_iff_getElem?.1 hy
  exact (warm_iff.1 h i y hi).2 (Nat.zero_le i)

/-- Of two series both must be available, for an operation on the real numbers that passes on what
is unavailable. -/
theorem zipWith {f : Exact → Exact → Exact} (hx : Warm k xs) (hy : Warm l ys)
    (hfin : ∀ x y, ∃ z, f (.fin x) (.fin y) = .fin z) (hleft : ∀ b, f .nan b = .nan)
    (hright : ∀ a, f a .nan = .nan) : Warm (max k l) (List.zipWith f xs ys) := by
  rw [warm_iff]
  intro i z hz
  obtain ⟨a, b, ha, hb, rfl⟩ := List.getElem?_zipWith_eq_some.1 hz
  obtain ⟨hxa, hxf⟩ := warm_iff.1 hx i a ha
  obtain ⟨hyb, hyf⟩ := warm_iff.1 hy i b hb
  constructor
  · intro hi
    rcases lt_max_iff.1 hi with hi | hi
    · rw [hxa hi, hleft]
    · rw [hyb hi, hright]
  · intro hi
    obtain ⟨x, rfl⟩ := hxf (le_of_max_le_left hi)
    obtain ⟨y, rfl⟩ := hyf (le_of_max_le_right hi)
    exact hfin x y

end Warm

/-! ## Trailing windows -/

/-- Finite numbers are real numbers. -/
theorem exists_map_fin (h : ∀ y ∈ ys, ∃ x, y = .fin x) : ∃ w : List ℝ, ys = w.map .fin := by
  induction ys with
  | nil => exact ⟨[], rfl⟩
  | cons y ys ih =>
    obtain ⟨⟨x, rfl⟩, hys⟩ := List.forall_mem_cons.1 h
    obtain ⟨w, rfl⟩ := ih hys
    exact ⟨x :: w, rfl⟩

theorem Warm.window?_none (h : Warm k xs) {i : Nat} (hi : i < k + period - 1) :
    window? xs period i = none := by
  unfold window?
  split
  · rfl
  next hin =>
    have hlt : i + 1 - period < xs.length := by omega
    have hnan : xs[i + 1 - period] = .nan :=
      (warm_iff.1 h _ _ (List.getElem?_eq_getElem hlt)).1 (by omega)
    refine if_pos (List.any_eq_true.2 ⟨.nan, ?_, rfl⟩)
    refine List.mem_of_getElem? (i := 0) ?_
    rw [List.getElem?_take_of_lt (by omega), List.getElem?_drop, Nat.add_zero,
      List.getElem?_eq_getElem hlt, hnan]

theorem Warm.window?_some (h : Warm k xs) (hperiod : 1 ≤ period) {i : Nat} (hi : i < xs.length)
    (hk : k + period - 1 ≤ i) :
    ∃ w : List ℝ, w.length = period ∧ window? xs period i = some (w.map .fin) := by
  have hfinite : ∀ y ∈ (xs.drop (i + 1 - period)).take period, ∃ x, y = .fin x := by
    intro y hy
    obtain ⟨j, hj⟩ := List.mem_iff_getElem?.1 (List.mem_of_mem_take hy)
    rw [List.getElem?_drop] at hj
    exact (warm_iff.1 h _ _ hj).2 (by omega)
  obtain ⟨w, hw⟩ := exists_map_fin hfinite
  refine ⟨w, ?_, ?_⟩
  · have hlength := congrArg List.length hw
    rw [List.length_take, List.length_drop, List.length_map] at hlength
    omega
  · have hnan : (w.map Exact.fin).any Arith.isNaN = false := by simp
    rw [window?, if_neg (by omega)]
    simp only [hw, hnan]
    rfl

/-- A function of the trailing window is available `period - 1` positions later than the series. -/
theorem Warm.windowed (h : Warm k xs) (hperiod : 1 ≤ period) {f : List Exact → Exact}
    (hf : ∀ w : List ℝ, w.length = period → ∃ x, f (w.map .fin) = .fin x) :
    Warm (k + period - 1) (windowed xs period f) := by
  rw [warm_iff]
  intro i y hy
  rw [BarScript.windowed, List.getElem?_map, Option.map_eq_some_iff] at hy
  obtain ⟨j, hj, rfl⟩ := hy
  obtain ⟨hi, rfl⟩ := List.getElem?_eq_some_iff.1 hj
  rw [List.length_range] at hi
  rw [List.getElem_range]
  constructor
  · intro hk
    rw [h.window?_none hk]
    rfl
  · intro hk
    obtain ⟨w, hlength, hw⟩ := h.window?_some hperiod hi hk
    rw [hw]
    exact hf w hlength

/-! ## Streaming states -/

/-- States in `Inv` give nothing for `wait` inputs that satisfy `Ok`, and finite numbers after
that. -/
structure Waits {σ ι : Type} [Streaming σ ι Exact] (Inv : σ → Prop) (wait : σ → Nat)
    (Ok : ι → Prop) : Prop where
  kept : ∀ {s x}, Inv s → Ok x → Inv (Streaming.next s x).2
  waits : ∀ {s x}, Inv s → Ok x → 0 < wait s →
    (Streaming.next s x).1 = .nan ∧ wait (Streaming.next s x).2 + 1 = wait s
  gives : ∀ {s x}, Inv s → Ok x → wait s = 0 →
    (∃ y, (Streaming.next s x).1 = .fin y) ∧ wait (Streaming.next s x).2 = 0

namespace Waits

variable {σ ι : Type}

theorem replay [Streaming σ ι Exact] {Inv : σ → Prop} {wait : σ → Nat} {Ok : ι → Prop}
    (h : Waits Inv wait Ok) {s : σ} (hs : Inv s) {inputs : List ι} (hinputs : ∀ x ∈ inputs, Ok x) :
    Warm (wait s) (replay s inputs) := by
  induction inputs generalizing s with
  | nil =>
    cases wait s <;> exact True.intro
  | cons x inputs ih =>
    obtain ⟨hx, hinputs⟩ := List.forall_mem_cons.1 hinputs
    have hrest := ih (h.kept hs hx) hinputs
    cases hwait : wait s with
    | zero =>
      obtain ⟨hy, hnext⟩ := h.gives hs hx hwait
      rw [hnext] at hrest
      exact ⟨hy, hrest⟩
    | succ w =>
      obtain ⟨hy, hnext⟩ := h.waits hs hx (by omega)
      rw [show wait (Streaming.next s x).2 = w by omega] at hrest
      exact ⟨hy, hrest⟩

/-- A state that passes over what is unavailable waits from the first input on that is there. -/
theorem replay_skipping [Streaming σ Exact Exact] {Inv : σ → Prop} {wait : σ → Nat}
    (h : Waits Inv wait fun x => ∃ y, x = Exact.fin y)
    (hskip : ∀ s : σ, Streaming.next s Exact.nan = (Exact.nan, s)) {s : σ} (hs : Inv s)
    (hxs : Warm k xs) : Warm (k + wait s) (BarScript.replay s xs) := by
  induction k generalizing xs with
  | zero =>
    rw [Nat.zero_add]
    exact h.replay hs hxs.finite
  | succ k ih =>
    cases xs with
    | nil =>
      rw [Nat.add_right_comm]
      exact True.intro
    | cons x xs =>
      obtain ⟨rfl, hxs⟩ := hxs
      have hfeed : BarScript.replay s (Exact.nan :: xs) = Exact.nan :: BarScript.replay s xs := by
        simp only [BarScript.replay, feed, hskip]
      rw [hfeed, Nat.add_right_comm]
      exact ⟨rfl, ih hxs⟩

end Waits

/-! ## The moving mean -/

/-- A running sum of finite numbers. -/
structure MeanState.Finite (s : MeanState Exact) : Prop where
  period : 1 ≤ s.period
  window : ∃ w : List ℝ, s.window = w.map .fin
  within : s.window.length ≤ s.period
  sum : ∃ x, s.sum = .fin x
  missing : s.missing = 0

namespace MeanState

/-- How many inputs are needed before the one that completes the window. -/
def wait (s : MeanState Exact) : Nat := s.period - 1 - s.window.length

theorem Finite.dropOldest {s : MeanState Exact} (h : s.Finite) :
    s.dropOldest.Finite ∧ s.dropOldest.period = s.period ∧
      s.dropOldest.window.length = s.window.length - 1 := by
  obtain ⟨hperiod, ⟨w, hw⟩, hwithin, ⟨x, hx⟩, hmissing⟩ := h
  cases w with
  | nil =>
    have hsame : s.dropOldest = s := by
      simp [MeanState.dropOldest, hw]
    rw [hsame]
    exact ⟨⟨hperiod, ⟨[], hw⟩, hwithin, ⟨x, hx⟩, hmissing⟩, rfl, by simp [hw]⟩
  | cons a w =>
    have hdrop : s.dropOldest = { s with window := w.map .fin, sum := s.sum - .fin a } := by
      simp [MeanState.dropOldest, hw]
    rw [hdrop]
    refine ⟨⟨hperiod, ⟨w, rfl⟩, ?_, ⟨x - a, ?_⟩, hmissing⟩, rfl, by simp [hw]⟩
    · rw [hw, List.map_cons, List.length_cons] at hwithin
      exact Nat.le_of_succ_le hwithin
    · rw [hx, Exact.fin_sub]

theorem Finite.add {s : MeanState Exact} (h : s.Finite) (hroom : s.window.length < s.period)
    (x : ℝ) : (s.add (.fin x)).Finite ∧ (s.add (.fin x)).period = s.period ∧
      (s.add (.fin x)).window.length = s.window.length + 1 := by
  obtain ⟨hperiod, ⟨w, hw⟩, hwithin, ⟨y, hy⟩, hmissing⟩ := h
  have hadd : s.add (.fin x) =
      { s with sum := s.sum + .fin x, window := s.window ++ [.fin x] } := rfl
  rw [hadd]
  refine ⟨⟨hperiod, ⟨w ++ [x], by simp [hw]⟩, by simpa using hroom, ⟨y + x, ?_⟩, hmissing⟩, rfl,
    by simp⟩
  rw [hy, Exact.fin_add]

theorem Finite.mean {s : MeanState Exact} (h : s.Finite) :
    (s.window.length < s.period → s.mean = .nan) ∧
      (s.window.length = s.period → ∃ x, s.mean = .fin x) := by
  obtain ⟨hperiod, -, -, ⟨x, hx⟩, hmissing⟩ := h
  constructor
  · intro hlt
    exact if_pos (.inl hlt)
  · intro heq
    have hne : (s.period : ℝ) ≠ 0 := by
      rw [Nat.cast_ne_zero]
      omega
    refine ⟨x / s.period, ?_⟩
    rw [MeanState.mean, if_neg (by omega), hx, Exact.ofCount_eq, Exact.fin_div _ hne]

/-- The state after an input, and the number of inputs in its window. -/
theorem Finite.next {s : MeanState Exact} (h : s.Finite) (x : ℝ) :
    ∃ s' : MeanState Exact, s.next (.fin x) = (s'.mean, s') ∧ s'.Finite ∧ s'.period = s.period ∧
      s'.window.length = min (s.window.length + 1) s.period := by
  have hperiod := h.period
  have hwithin := h.within
  unfold MeanState.next
  rw [if_neg (by omega)]
  split
  next hfull =>
    obtain ⟨hdrop, hp, hl⟩ := h.dropOldest
    obtain ⟨hadd, hp', hl'⟩ := hdrop.add (by omega) x
    exact ⟨_, rfl, hadd, hp'.trans hp, by omega⟩
  next hfull =>
    obtain ⟨hadd, hp', hl'⟩ := h.add (by omega) x
    exact ⟨_, rfl, hadd, hp', by omega⟩

theorem waits : Waits MeanState.Finite wait fun x => ∃ y, x = Exact.fin y where
  kept := by
    rintro s _ h ⟨x, rfl⟩
    obtain ⟨s', hnext, hs', -, -⟩ := h.next x
    rw [show Streaming.next s (Exact.fin x) = _ from hnext]
    exact hs'
  waits := by
    rintro s _ h ⟨x, rfl⟩ hwait
    obtain ⟨s', hnext, hs', hp, hl⟩ := h.next x
    rw [show Streaming.next s (Exact.fin x) = _ from hnext]
    unfold wait at hwait ⊢
    exact ⟨hs'.mean.1 (by omega), by simp only; omega⟩
  gives := by
    rintro s _ h ⟨x, rfl⟩ hwait
    obtain ⟨s', hnext, hs', hp, hl⟩ := h.next x
    rw [show Streaming.next s (Exact.fin x) = _ from hnext]
    have hperiod := h.period
    unfold wait at hwait ⊢
    exact ⟨hs'.mean.2 (by omega), by simp only; omega⟩

theorem fresh_finite (hperiod : 1 ≤ period) : (fresh period : MeanState Exact).Finite :=
  ⟨hperiod, ⟨[], rfl⟩, Nat.zero_le _, ⟨_, Exact.numeral_eq 0⟩, rfl⟩

end MeanState

theorem warm_sma (hperiod : 1 ≤ period) (h : Warm 0 xs) : Warm (period - 1) (sma xs period) :=
  MeanState.waits.replay (MeanState.fresh_finite hperiod) h.finite

/-! ## Exponential averages -/

/-- An exponential average of finite numbers. -/
structure SmoothedState.Finite (s : SmoothedState Exact) : Prop where
  period : 1 ≤ s.period
  weight : ∃ w, s.weight = .fin w
  sum : ∃ x, s.seedSum = .fin x
  value : ∀ v ∈ s.value, ∃ x, v = .fin x
  seeding : s.value = none → s.seedCount < s.period

namespace SmoothedState

/-- How many inputs are needed before the one that gives the first value. -/
def wait (s : SmoothedState Exact) : Nat :=
  match s.value with
  | some _ => 0
  | none => s.period - 1 - s.seedCount

theorem Finite.next {s : SmoothedState Exact} (h : s.Finite) (x : ℝ) :
    (s.next (.fin x)).2.Finite ∧
      (0 < s.wait → (s.next (.fin x)).1 = .nan ∧ (s.next (.fin x)).2.wait + 1 = s.wait) ∧
      (s.wait = 0 → (∃ y, (s.next (.fin x)).1 = .fin y) ∧ (s.next (.fin x)).2.wait = 0) := by
  obtain ⟨hperiod, ⟨w, hw⟩, ⟨sum, hsum⟩, hvalue, hseeding⟩ := h
  have hguard : ¬ (s.period = 0 ∨ Arith.isNaN (Exact.fin x) = true) := by
    rw [Exact.isNaN_fin]
    simp only [Bool.false_eq_true, or_false]
    omega
  have hsum' : s.seedSum + .fin x = .fin (sum + x) := by rw [hsum, Exact.fin_add]
  unfold SmoothedState.next
  rw [if_neg hguard]
  cases hv : s.value with
  | some v =>
    obtain ⟨y, rfl⟩ := hvalue v hv
    have hnew : .fin x * s.weight + .fin y * (1 - s.weight) = .fin (x * w + y * (1 - w)) := by
      rw [hw, Exact.numeral_eq, Nat.cast_one]
      rfl
    dsimp only
    rw [hnew]
    refine ⟨⟨hperiod, ⟨w, hw⟩, ⟨sum, hsum⟩, by simp, nofun⟩, fun hwait => ?_,
      fun _ => ⟨⟨_, rfl⟩, rfl⟩⟩
    simp [wait, hv] at hwait
  | none =>
    have hcount := hseeding hv
    have hwait : s.wait = s.period - 1 - s.seedCount := by simp [wait, hv]
    unfold seed
    dsimp only
    rw [hsum', hwait]
    split
    next hmore =>
      refine ⟨⟨hperiod, ⟨w, hw⟩, ⟨_, rfl⟩, hvalue, fun _ => hmore⟩, fun _ => ⟨rfl, ?_⟩, fun _ => ?_⟩
      · simp only [wait, hv]
        omega
      · omega
    next hfull =>
      have hne : (s.period : ℝ) ≠ 0 := by
        rw [Nat.cast_ne_zero]
        omega
      have hfirst : Exact.fin (sum + x) / Arith.ofCount s.period = .fin ((sum + x) / s.period) := by
        rw [Exact.ofCount_eq, Exact.fin_div _ hne]
      rw [hfirst]
      exact ⟨⟨hperiod, ⟨w, hw⟩, ⟨_, rfl⟩, by simp, nofun⟩, fun _ => by omega,
        fun _ => ⟨⟨_, rfl⟩, rfl⟩⟩

theorem waits : Waits SmoothedState.Finite wait fun x => ∃ y, x = Exact.fin y where
  kept := by
    rintro s _ h ⟨x, rfl⟩
    exact (h.next x).1
  waits := by
    rintro s _ h ⟨x, rfl⟩
    exact (h.next x).2.1
  gives := by
    rintro s _ h ⟨x, rfl⟩
    exact (h.next x).2.2

theorem next_nan (s : SmoothedState Exact) : s.next .nan = (.nan, s) := if_pos (.inr rfl)

theorem fresh_finite (hperiod : 1 ≤ period) (w : ℝ) :
    (fresh period (.fin w) : SmoothedState Exact).Finite :=
  ⟨hperiod, ⟨w, rfl⟩, ⟨_, Exact.numeral_eq 0⟩, nofun, fun _ => hperiod⟩

theorem ema_finite (hperiod : 1 ≤ period) : (ema period : SmoothedState Exact).Finite := by
  have hweight : (2 : Exact) / (Arith.ofCount period + 1) = .fin (2 / (period + 1)) := by
    have hne : (period : ℝ) + 1 ≠ 0 := by positivity
    rw [Exact.ofCount_eq, Exact.numeral_eq, Exact.numeral_eq, Exact.fin_add, Nat.cast_one,
      Exact.fin_div _ hne]
    rfl
  rw [ema, hweight]
  exact fresh_finite hperiod _

theorem rma_finite (hperiod : 1 ≤ period) : (rma period : SmoothedState Exact).Finite := by
  have hweight : (1 : Exact) / Arith.ofCount (Nat.max period 1) = .fin (1 / (Nat.max period 1)) := by
    have hne : ((Nat.max period 1 : ℕ) : ℝ) ≠ 0 := by
      rw [Nat.cast_ne_zero]
      exact Nat.pos_iff_ne_zero.1 (Nat.le_max_right period 1)
    rw [Exact.ofCount_eq, Exact.numeral_eq, Nat.cast_one, Exact.fin_div _ hne]
  rw [rma, hweight]
  exact fresh_finite hperiod _

end SmoothedState

theorem warm_ema (hperiod : 1 ≤ period) (h : Warm k xs) :
    Warm (k + (period - 1)) (ema xs period) :=
  SmoothedState.waits.replay_skipping SmoothedState.next_nan (SmoothedState.ema_finite hperiod) h

theorem warm_rma (hperiod : 1 ≤ period) (h : Warm k xs) :
    Warm (k + (period - 1)) (rma xs period) :=
  SmoothedState.waits.replay_skipping SmoothedState.next_nan (SmoothedState.rma_finite hperiod) h

theorem warm_dema (hperiod : 1 ≤ period) (h : Warm 0 xs) :
    Warm (2 * (period - 1)) (dema xs period) := by
  have h1 := warm_ema hperiod h
  have h2 := warm_ema hperiod h1
  have hfin : ∀ x y : ℝ, ∃ z, (2 : Exact) * .fin x - .fin y = .fin z := fun x y =>
    ⟨(2 : ℕ) * x - y, by rw [Exact.numeral_eq, Exact.fin_mul, Exact.fin_sub]⟩
  have hboth := h1.zipWith h2 hfin (fun b => by rw [Exact.mul_nan, Exact.nan_sub])
    (fun a => Exact.sub_nan _)
  rwa [show max (0 + (period - 1)) (0 + (period - 1) + (period - 1)) = 2 * (period - 1) by omega]
    at hboth

/-! ## Wilder's averages of a market -/

/-- The prices of a bar that are needed for its range are finite. -/
def Reach.Finite (r : Reach Exact) : Prop :=
  ∃ high low close : ℝ, r = ⟨.fin high, .fin low, .fin close⟩

theorem Reach.Finite.trueRange {r : Reach Exact} (h : r.Finite) {c : Option Exact}
    (hc : ∀ v ∈ c, ∃ x, v = .fin x) : ∃ x, r.trueRange c true = .fin x := by
  obtain ⟨high, low, close, rfl⟩ := h
  cases c with
  | none => exact ⟨high - low, by simp [Reach.trueRange]⟩
  | some v =>
    obtain ⟨x, rfl⟩ := hc v rfl
    exact ⟨max (max (high - low) |high - x|) |low - x|,
      by simp [Reach.trueRange, Option.filter_some]⟩

namespace RangeState

structure Finite (s : RangeState Exact) : Prop where
  average : s.average.Finite
  previous : ∀ v ∈ s.previousClose, ∃ x, v = .fin x

theorem Finite.next {s : RangeState Exact} (h : s.Finite) {r : Reach Exact} (hr : r.Finite) :
    ∃ x close : ℝ, s.next r = ((s.average.next (.fin x)).1,
      ⟨(s.average.next (.fin x)).2, some (.fin close)⟩) := by
  obtain ⟨x, hx⟩ := hr.trueRange h.previous
  obtain ⟨high, low, close, rfl⟩ := hr
  refine ⟨x, close, ?_⟩
  have hnan : Reach.hasNaN (⟨.fin high, .fin low, .fin close⟩ : Reach Exact) = false := rfl
  rw [RangeState.next, hnan, if_neg Bool.false_ne_true, hx]

theorem waits : Waits RangeState.Finite (·.average.wait) Reach.Finite where
  kept h hr := by
    obtain ⟨x, close, hnext⟩ := h.next hr
    rw [show Streaming.next _ _ = _ from hnext]
    exact ⟨(h.average.next x).1, by simp⟩
  waits h hr := by
    obtain ⟨x, close, hnext⟩ := h.next hr
    rw [show Streaming.next _ _ = _ from hnext]
    exact (h.average.next x).2.1
  gives h hr := by
    obtain ⟨x, close, hnext⟩ := h.next hr
    rw [show Streaming.next _ _ = _ from hnext]
    exact (h.average.next x).2.2

end RangeState

theorem warm_ranges (hperiod : 1 ≤ period) {bars : List (Reach Exact)}
    (h : ∀ r ∈ bars, r.Finite) :
    Warm (period - 1) (replay (RangeState.fresh period : RangeState Exact) bars) := by
  have hfresh : (RangeState.fresh period : RangeState Exact).Finite :=
    ⟨SmoothedState.rma_finite hperiod, nofun⟩
  exact RangeState.waits.replay hfresh h

theorem warm_tema (hperiod : 1 ≤ period) (h : Warm 0 xs) :
    Warm (3 * (period - 1)) (tema xs period) := by
  have h1 := warm_ema hperiod h
  have h2 := warm_ema hperiod h1
  have h3 := warm_ema hperiod h2
  have hzip : tema xs period = List.zipWith (· + ·)
      (List.zipWith (fun a b => 3 * a - 3 * b) (ema xs period) (ema (ema xs period) period))
      (ema (ema (ema xs period) period) period) := by
    rw [← List.map_uncurry_zip_eq_zipWith (f := fun a b : Exact => 3 * a - 3 * b), List.zipWith_map_left]
    rfl
  have hfin : ∀ x y : ℝ, ∃ z, (3 : Exact) * .fin x - 3 * .fin y = .fin z := fun x y =>
    ⟨(3 : ℕ) * x - (3 : ℕ) * y, by rw [Exact.numeral_eq, Exact.fin_mul, Exact.fin_mul, Exact.fin_sub]⟩
  have hfirst := Warm.zipWith (f := fun a b => 3 * a - 3 * b) h1 h2 hfin
    (fun b => by rw [Exact.mul_nan, Exact.nan_sub])
    (fun a => by rw [Exact.mul_nan, Exact.sub_nan])
  have hall := hfirst.zipWith h3 (fun x y => ⟨x + y, Exact.fin_add x y⟩) Exact.nan_add Exact.add_nan
  rw [hzip]
  rwa [show max (max (0 + (period - 1)) (0 + (period - 1) + (period - 1)))
    (0 + (period - 1) + (period - 1) + (period - 1)) = 3 * (period - 1) by omega] at hall

/-! ## The relative strength index -/

/-- Gains and losses of finite numbers. -/
structure StrengthState.Finite (s : StrengthState Exact) : Prop where
  period : 1 ≤ s.period
  before : ∀ v ∈ s.before, ∃ x, v = .fin x
  changes : s.changes ≤ s.period
  unmoved : s.before = none → s.changes = 0
  gain : ∃ x, 0 ≤ x ∧ s.gain = .fin x
  loss : ∃ x, 0 ≤ x ∧ s.loss = .fin x

namespace StrengthState

/-- How many inputs are needed before the one that gives the first value: one has no change. -/
def wait (s : StrengthState Exact) : Nat :=
  match s.before with
  | none => s.period
  | some _ => s.period - 1 - s.changes

/-- The index of averages that are not negative. -/
theorem index_finite {s : StrengthState Exact} {g l : ℝ} (hg : 0 ≤ g) (hl : 0 ≤ l)
    (hgain : s.gain = .fin g) (hloss : s.loss = .fin l) : ∃ x, s.index = .fin x := by
  rw [index, hgain, hloss]
  by_cases h : l = 0
  · exact ⟨(100 : ℕ), by simp [h]⟩
  · have hsum : 1 + g / l ≠ 0 := by positivity
    have hne : ¬ (Exact.fin l == 0) = true := by simpa using h
    refine ⟨(100 : ℕ) - (100 : ℕ) / (1 + g / l), ?_⟩
    rw [if_neg hne, Exact.fin_div _ h, Exact.numeral_eq, Exact.numeral_eq, Nat.cast_one,
      Exact.fin_add, Exact.fin_div _ hsum, Exact.fin_sub]

/-- A change of the input: a gain or a loss, and an index once there have been `period` changes. -/
theorem Finite.move {s : StrengthState Exact} (h : s.Finite) {v : Exact} (hv : s.before = some v)
    (d : ℝ) : (s.move (.fin d)).2.Finite ∧ (s.move (.fin d)).2.before = s.before ∧
      (s.changes + 1 < s.period → (s.move (.fin d)).1 = .nan ∧
        (s.move (.fin d)).2.changes = s.changes + 1 ∧ (s.move (.fin d)).2.period = s.period) ∧
      (s.period ≤ s.changes + 1 → (∃ y, (s.move (.fin d)).1 = .fin y) ∧
        (s.move (.fin d)).2.changes = s.period ∧ (s.move (.fin d)).2.period = s.period) := by
  obtain ⟨hperiod, hbefore, hchanges, hnone, ⟨g, hg, hgain⟩, ⟨l, hl, hloss⟩⟩ := h
  have hstill : s.before = none → False := by simp [hv]
  have hup : Arith.max (Exact.fin d) 0 = .fin (max d 0) := by
    rw [Exact.numeral_eq, Nat.cast_zero, Exact.max_fin]
  have hdown : Arith.max (-Exact.fin d) 0 = .fin (max (-d) 0) := by
    rw [Exact.numeral_eq, Nat.cast_zero, Exact.neg_fin, Exact.max_fin]
  have hn : (s.period : ℝ) ≠ 0 := by
    rw [Nat.cast_ne_zero]
    omega
  have hpos : (1 : ℝ) ≤ s.period := by exact_mod_cast hperiod
  unfold StrengthState.move
  rw [hup, hdown, hgain, hloss]
  simp only [Exact.fin_add, Exact.ofCount_eq]
  split
  next hmore =>
    have hg' : 0 ≤ g + max d 0 := by positivity
    have hl' : 0 ≤ l + max (-d) 0 := by positivity
    split
    next hlt =>
      exact ⟨⟨hperiod, hbefore, by simp only; omega, fun hb => (hstill hb).elim, ⟨_, hg', rfl⟩,
        ⟨_, hl', rfl⟩⟩, rfl, fun _ => ⟨rfl, rfl, rfl⟩, fun hle => by omega⟩
    next hge =>
      rw [Exact.fin_div _ hn, Exact.fin_div _ hn]
      have hg'' : 0 ≤ (g + max d 0) / s.period := by positivity
      have hl'' : 0 ≤ (l + max (-d) 0) / s.period := by positivity
      exact ⟨⟨hperiod, hbefore, by simp only; omega, fun hb => (hstill hb).elim, ⟨_, hg'', rfl⟩,
        ⟨_, hl'', rfl⟩⟩, rfl, fun hlt => by omega,
        fun _ => ⟨index_finite hg'' hl'' rfl rfl, by simp only; omega, rfl⟩⟩
  next hfull =>
    have hstep (a b : ℝ) : (Exact.fin a * (.fin s.period - 1) + .fin b) / .fin s.period =
        .fin ((a * (s.period - 1) + b) / s.period) := by
      rw [Exact.numeral_eq, Nat.cast_one, Exact.fin_sub, Exact.fin_mul, Exact.fin_add,
        Exact.fin_div _ hn]
    rw [hstep, hstep]
    have hrest : (0 : ℝ) ≤ s.period - 1 := by linarith
    have hg' : 0 ≤ (g * (s.period - 1) + max d 0) / s.period := by positivity
    have hl' : 0 ≤ (l * (s.period - 1) + max (-d) 0) / s.period := by positivity
    exact ⟨⟨hperiod, hbefore, hchanges, fun hb => (hstill hb).elim, ⟨_, hg', rfl⟩,
      ⟨_, hl', rfl⟩⟩, rfl, fun hlt => by omega,
      fun _ => ⟨index_finite hg' hl' rfl rfl, by simp only; omega, rfl⟩⟩

theorem Finite.next {s : StrengthState Exact} (h : s.Finite) (x : ℝ) :
    (s.next (.fin x)).2.Finite ∧
      (0 < s.wait → (s.next (.fin x)).1 = .nan ∧ (s.next (.fin x)).2.wait + 1 = s.wait) ∧
      (s.wait = 0 → (∃ y, (s.next (.fin x)).1 = .fin y) ∧ (s.next (.fin x)).2.wait = 0) := by
  have hperiod := h.period
  have hguard : ¬ (s.period = 0 ∨ Arith.isNaN (Exact.fin x) = true) := by
    rw [Exact.isNaN_fin]
    simp only [Bool.false_eq_true, or_false]
    omega
  have hmoved : ({ s with before := some (.fin x) } : StrengthState Exact).Finite :=
    ⟨h.period, by simp, h.changes, nofun, h.gain, h.loss⟩
  cases hb : s.before with
  | none =>
    have hchanges := h.unmoved hb
    have hnext : s.next (.fin x) = (.nan, { s with before := some (.fin x) }) := by
      rw [StrengthState.next, if_neg hguard]
      simp only [hb, Exact.nan_eq]
    rw [hnext]
    refine ⟨hmoved, fun _ => ⟨rfl, ?_⟩, fun hwait => ?_⟩
    · simp only [wait, hb, hchanges]
      omega
    · simp only [wait, hb] at hwait
      omega
  | some v =>
    obtain ⟨y, rfl⟩ := h.before v hb
    obtain ⟨hfinite, hbefore, hmore, hdone⟩ := hmoved.move rfl (x - y)
    have hnext : s.next (.fin x) =
        ({ s with before := some (.fin x) } : StrengthState Exact).move (.fin (x - y)) := by
      rw [StrengthState.next, if_neg hguard]
      simp only [hb, Exact.fin_sub]
    have hwait : s.wait = s.period - 1 - s.changes := by simp [wait, hb]
    have hchanges := h.changes
    rw [hnext, hwait]
    refine ⟨hfinite, fun hpos => ?_, fun hzero => ?_⟩
    · obtain ⟨hy, hc, hp⟩ := hmore (by simp only; omega)
      refine ⟨hy, ?_⟩
      simp only [wait, hbefore, hc, hp]
      omega
    · obtain ⟨hy, hc, hp⟩ := hdone (by simp only; omega)
      refine ⟨hy, ?_⟩
      simp only [wait, hbefore, hc, hp]
      omega

theorem waits : Waits StrengthState.Finite wait fun x => ∃ y, x = Exact.fin y where
  kept := by
    rintro s _ h ⟨x, rfl⟩
    exact (h.next x).1
  waits := by
    rintro s _ h ⟨x, rfl⟩
    exact (h.next x).2.1
  gives := by
    rintro s _ h ⟨x, rfl⟩
    exact (h.next x).2.2

theorem fresh_finite (hperiod : 1 ≤ period) : (fresh period : StrengthState Exact).Finite :=
  ⟨hperiod, nofun, Nat.zero_le _, fun _ => rfl, ⟨0, le_rfl, by simp [fresh]⟩,
    ⟨0, le_rfl, by simp [fresh]⟩⟩

end StrengthState

theorem warm_rsi (hperiod : 1 ≤ period) (h : Warm 0 xs) : Warm period (rsi xs period) :=
  StrengthState.waits.replay (StrengthState.fresh_finite hperiod) h.finite

/-! ## Differences -/

theorem warm_change (hperiod : 1 ≤ period) (h : Warm 0 xs) : Warm period (change xs period) := by
  rw [warm_iff]
  intro i y hy
  rw [change, lagged, List.getElem?_map, Option.map_eq_some_iff] at hy
  obtain ⟨j, hj, rfl⟩ := hy
  obtain ⟨hi, rfl⟩ := List.getElem?_eq_some_iff.1 hj
  rw [List.length_range] at hi
  rw [List.getElem_range]
  constructor
  · intro hlt
    rw [if_pos (.inr hlt)]
    rfl
  · intro hle
    obtain ⟨x, hx⟩ := h.finite xs[i] (List.getElem_mem _)
    obtain ⟨x', hx'⟩ := h.finite xs[i - period] (List.getElem_mem _)
    rw [if_neg (by omega), List.getElem?_eq_getElem hi, List.getElem?_eq_getElem (by omega), hx, hx']
    exact ⟨x - x', Exact.fin_sub x x'⟩

/-! ## Means of a window -/

/-- A sum of finite numbers, whatever is done to them. -/
theorem sum_finite {β : Type} (xs : List β) (f : β → Exact) (g : β → ℝ) (h : ∀ x, f x = .fin (g x)) :
    Arith.sum (xs.map f) = .fin (xs.map g).sum := by
  rw [← Exact.sum_fin, List.map_map]
  exact congrArg Arith.sum (List.map_congr_left fun x _ => h x)

theorem weightedMean_finite {w : List ℝ} (hw : 1 ≤ w.length) :
    ∃ x, weightedMean (w.map Exact.fin) = .fin x := by
  have hcount : ((w.length * (w.length + 1) : ℕ) : ℝ) ≠ 0 := by
    rw [Nat.cast_ne_zero]
    positivity
  have htwo : ((2 : ℕ) : ℝ) ≠ 0 := by norm_num
  have hdivisor : ((w.length * (w.length + 1) : ℕ) : ℝ) / (2 : ℕ) ≠ 0 := div_ne_zero hcount htwo
  have hsum := sum_finite w.zipIdx
    (fun x : ℝ × ℕ => Arith.ofCount (x.2 + 1) * Exact.fin x.1) (fun x => (x.2 + 1 : ℕ) * x.1)
    fun x => by rw [Exact.ofCount_eq, Exact.fin_mul]
  have hzip : ((w.map Exact.fin).zipIdx.map fun (v, j) => Arith.ofCount (j + 1) * v) =
      w.zipIdx.map fun x : ℝ × ℕ => Arith.ofCount (x.2 + 1) * Exact.fin x.1 := by
    rw [List.zipIdx_map, List.map_map]
    rfl
  refine ⟨(w.zipIdx.map fun x : ℝ × ℕ => ((x.2 + 1 : ℕ) : ℝ) * x.1).sum /
    (((w.length * (w.length + 1) : ℕ) : ℝ) / (2 : ℕ)), ?_⟩
  rw [weightedMean, hzip, hsum, List.length_map, Exact.ofCount_eq, Exact.numeral_eq,
    Exact.fin_div _ htwo, Exact.fin_div _ hdivisor]

theorem warm_wma (hperiod : 1 ≤ period) (h : Warm k xs) :
    Warm (k + period - 1) (wma xs period) :=
  h.windowed hperiod fun _ hw => weightedMean_finite (hw ▸ hperiod)

theorem warm_swma (h : Warm 0 xs) : Warm 3 (swma xs) := by
  have hsix : ((6 : ℕ) : ℝ) ≠ 0 := by norm_num
  have hfour : 1 ≤ 4 := by omega
  refine h.windowed hfour fun w hw => ?_
  match w, hw with
  | [a, b, c, d], _ =>
    refine ⟨(a + (2 : ℕ) * b + (2 : ℕ) * c + d) / (6 : ℕ), ?_⟩
    simp only [List.map_cons, List.map_nil, Exact.numeral_eq, Exact.fin_mul, Exact.fin_add,
      Exact.fin_div _ hsix]

theorem one_le_integerRoot {n : Nat} (hn : 1 ≤ n) : 1 ≤ integerRoot n := by
  induction n using Nat.strong_induction_on with
  | _ n ih =>
    rw [integerRoot]
    split
    · exact hn
    next hlarge =>
      rcases Nat.eq_zero_or_pos (n / 4) with hzero | hpos
      · have hroot : integerRoot 0 = 0 := by rw [integerRoot]; rfl
        rw [hzero, hroot, if_pos (by omega)]
      · have hquarter := ih (n / 4) (by omega) hpos
        dsimp only
        split <;> omega

theorem one_le_toDoubleBits {n : Nat} (hn : 1 ≤ n) : 1 ≤ toDoubleBits n := by
  have hunit : twoTo (n.log2 - 52) ≤ n :=
    (Nat.pow_le_pow_right (by omega) (Nat.sub_le _ _)).trans (Nat.log2_self_le (by omega))
  have hpos := twoTo_pos (n.log2 - 52)
  have hquotient : 1 ≤ n / twoTo (n.log2 - 52) := (Nat.one_le_div_iff hpos).2 hunit
  unfold toDoubleBits
  dsimp only
  refine Nat.mul_pos ?_ hpos
  split <;> omega

theorem one_le_hullSmoothing (hperiod : 1 ≤ period) : 1 ≤ hullSmoothing period := by
  have hroot := one_le_integerRoot (one_le_toDoubleBits hperiod)
  unfold hullSmoothing wholeRoot
  dsimp only
  split <;> omega

theorem warm_hma (hperiod : 2 ≤ period) (h : Warm 0 xs) :
    Warm (period - 1 + hullSmoothing period - 1) (hma xs period) := by
  have hshort : 1 ≤ period / 2 := by omega
  have hlong : 1 ≤ period := by omega
  have hhalf := warm_wma hshort h
  have hwhole := warm_wma hlong h
  have hfin : ∀ x y : ℝ, ∃ z, (2 : Exact) * .fin x - .fin y = .fin z := fun x y =>
    ⟨(2 : ℕ) * x - y, by rw [Exact.numeral_eq, Exact.fin_mul, Exact.fin_sub]⟩
  have hboth := Warm.zipWith (f := fun a b => 2 * a - b) hhalf hwhole hfin
    (fun b => by rw [Exact.mul_nan, Exact.nan_sub]) (fun a => Exact.sub_nan _)
  rw [show max (0 + period / 2 - 1) (0 + period - 1) = period - 1 by omega] at hboth
  exact warm_wma (one_le_hullSmoothing hlong) hboth

/-! ## Order statistics -/

theorem highest_finite (w : List ℝ) (x : ℝ) :
    ∃ y, (w.map Exact.fin).foldl Arith.max (.fin x) = .fin y := by
  induction w generalizing x with
  | nil => exact ⟨x, rfl⟩
  | cons a w ih =>
    rw [List.map_cons, List.foldl_cons, Exact.max_fin]
    exact ih _

theorem lowest_finite (w : List ℝ) (x : ℝ) :
    ∃ y, (w.map Exact.fin).foldl Arith.min (.fin x) = .fin y := by
  induction w generalizing x with
  | nil => exact ⟨x, rfl⟩
  | cons a w ih =>
    rw [List.map_cons, List.foldl_cons, Exact.min_fin]
    exact ih _

theorem warm_highest (hperiod : 1 ≤ period) (h : Warm 0 xs) :
    Warm (period - 1) (highest xs period) := by
  have hfin : ∀ w : List ℝ, w.length = period →
      ∃ x, (w.map Exact.fin).foldl Arith.max Arith.lowest = .fin x := by
    intro w hw
    cases w with
    | nil => simp at hw; omega
    | cons a w =>
      have hfirst : Arith.max (Arith.lowest : Exact) (.fin a) = .fin a := if_pos rfl
      rw [List.map_cons, List.foldl_cons, hfirst]
      exact highest_finite w a
  have hwarm := h.windowed hperiod hfin
  rwa [Nat.zero_add] at hwarm

theorem warm_lowest (hperiod : 1 ≤ period) (h : Warm 0 xs) :
    Warm (period - 1) (lowest xs period) := by
  have hfin : ∀ w : List ℝ, w.length = period →
      ∃ x, (w.map Exact.fin).foldl Arith.min Arith.greatest = .fin x := by
    intro w hw
    cases w with
    | nil => simp at hw; omega
    | cons a w =>
      have hfirst : Arith.min (Arith.greatest : Exact) (.fin a) = .fin a := if_pos rfl
      rw [List.map_cons, List.foldl_cons, hfirst]
      exact lowest_finite w a
  have hwarm := h.windowed hperiod hfin
  rwa [Nat.zero_add] at hwarm

theorem windowMedian_finite {w : List ℝ} (hw : 1 ≤ w.length) :
    ∃ x, windowMedian (w.map Exact.fin) = .fin x := by
  have hperm := List.mergeSort_perm (w.map Exact.fin) Arith.sortsBefore
  have hlength : ((w.map Exact.fin).mergeSort Arith.sortsBefore).length = w.length := by
    rw [hperm.length_eq, List.length_map]
  have hget : ∀ i < w.length, ∃ x,
      ((w.map Exact.fin).mergeSort Arith.sortsBefore).getD i Arith.nan = .fin x := by
    intro i hi
    have hlt : i < ((w.map Exact.fin).mergeSort Arith.sortsBefore).length := by omega
    have hmem : ((w.map Exact.fin).mergeSort Arith.sortsBefore)[i] ∈ w.map Exact.fin :=
      hperm.mem_iff.1 (List.getElem_mem hlt)
    obtain ⟨x, -, hx⟩ := List.mem_map.1 hmem
    refine ⟨x, ?_⟩
    rw [List.getD_eq_getElem?_getD, List.getElem?_eq_getElem hlt, Option.getD_some, hx]
  unfold windowMedian
  dsimp only
  rw [hlength]
  obtain ⟨upper, hupper⟩ := hget (w.length / 2) (by omega)
  rw [hupper]
  split
  next heven =>
    obtain ⟨lower, hlower⟩ := hget (w.length / 2 - 1) (by omega)
    have htwo : ((2 : ℕ) : ℝ) ≠ 0 := by norm_num
    refine ⟨(lower + upper) / (2 : ℕ), ?_⟩
    rw [hlower, Exact.fin_add, Exact.numeral_eq, Exact.fin_div _ htwo]
  next hodd => exact ⟨upper, rfl⟩

theorem warm_median (hperiod : 1 ≤ period) (h : Warm 0 xs) :
    Warm (period - 1) (median xs period) := by
  have hwarm := h.windowed hperiod fun w hw => windowMedian_finite (hw ▸ hperiod)
  rwa [Nat.zero_add] at hwarm

/-! ## Dispersion -/

theorem windowMean_finite {w : List ℝ} (hw : 1 ≤ w.length) :
    ∃ x, windowMean (w.map Exact.fin) = .fin x := by
  have hne : (w.length : ℝ) ≠ 0 := by
    rw [Nat.cast_ne_zero]
    omega
  refine ⟨w.sum / w.length, ?_⟩
  rw [windowMean, Exact.sum_fin, List.length_map, Exact.ofCount_eq, Exact.fin_div _ hne]

/-- A variance is finite and not negative, of two values at least if it is unbiased. -/
theorem windowVariance_finite {w : List ℝ} {biased : Bool} (hw : 1 ≤ w.length)
    (hbiased : biased = false → 2 ≤ w.length) :
    ∃ x, 0 ≤ x ∧ windowVariance (w.map Exact.fin) biased = .fin x := by
  obtain ⟨m, hm⟩ := windowMean_finite hw
  let divisor := if biased then w.length else w.length - 1
  have hdivisor : 1 ≤ divisor := by
    cases biased with
    | true => exact hw
    | false =>
      have := hbiased rfl
      change 1 ≤ w.length - 1
      omega
  have hne : (divisor : ℝ) ≠ 0 := by
    rw [Nat.cast_ne_zero]
    omega
  have hsquares := sum_finite w (fun v => (Exact.fin v - .fin m) * (Exact.fin v - .fin m))
    (fun v => (v - m) * (v - m)) fun v => by rw [Exact.fin_sub, Exact.fin_mul]
  have hpos : 0 ≤ (w.map fun v => (v - m) * (v - m)).sum := by
    refine List.sum_nonneg fun y hy => ?_
    obtain ⟨v, -, rfl⟩ := List.mem_map.1 hy
    exact mul_self_nonneg _
  refine ⟨(w.map fun v => (v - m) * (v - m)).sum / divisor, by positivity, ?_⟩
  rw [windowVariance, hm]
  simp only [List.map_map, List.length_map, Function.comp_def]
  rw [hsquares, show (if biased = true then w.length else w.length - 1) = divisor from rfl,
    if_neg (by omega), Exact.ofCount_eq, Exact.fin_div _ hne]

theorem warm_variance (hperiod : 1 ≤ period) {biased : Bool} (hbiased : biased = false → 2 ≤ period)
    (h : Warm 0 xs) : Warm (period - 1) (variance xs period biased) := by
  have hwarm := h.windowed hperiod (f := fun w => windowVariance w biased) fun w hw => by
    obtain ⟨x, -, hx⟩ := windowVariance_finite (w := w) (hw ▸ hperiod) (hw ▸ hbiased)
    exact ⟨x, hx⟩
  rwa [Nat.zero_add] at hwarm

theorem warm_stdev (hperiod : 1 ≤ period) {biased : Bool} (hbiased : biased = false → 2 ≤ period)
    (h : Warm 0 xs) : Warm (period - 1) (stdev xs period biased) := by
  have hwarm := h.windowed hperiod (f := fun w => Arith.sqrt (windowVariance w biased))
    fun w hw => by
      obtain ⟨x, hx, hvariance⟩ := windowVariance_finite (w := w) (hw ▸ hperiod) (hw ▸ hbiased)
      exact ⟨Real.sqrt x, by rw [hvariance, Exact.sqrt_fin hx]⟩
  rwa [Nat.zero_add] at hwarm

theorem warm_dev (hperiod : 1 ≤ period) (h : Warm 0 xs) : Warm (period - 1) (dev xs period) := by
  have hfin : ∀ w : List ℝ, w.length = period → ∃ x,
      Arith.sum ((w.map Exact.fin).map fun v => Arith.abs (v - windowMean (w.map Exact.fin))) /
        Arith.ofCount (w.map Exact.fin).length = .fin x := by
    intro w hw
    obtain ⟨m, hm⟩ := windowMean_finite (w := w) (hw ▸ hperiod)
    have hne : (w.length : ℝ) ≠ 0 := by
      rw [Nat.cast_ne_zero]
      omega
    have hsum := sum_finite w (fun v => Arith.abs (Exact.fin v - .fin m)) (fun v => |v - m|)
      fun v => by rw [Exact.fin_sub, Exact.abs_fin]
    refine ⟨(w.map fun v => |v - m|).sum / w.length, ?_⟩
    rw [hm, List.map_map, Function.comp_def, hsum, List.length_map, Exact.ofCount_eq,
      Exact.fin_div _ hne]
  have hwarm := h.windowed hperiod (f := fun w =>
    Arith.sum (w.map fun v => Arith.abs (v - windowMean w)) / Arith.ofCount w.length) hfin
  rwa [Nat.zero_add] at hwarm

/-! ## Regression lines -/

/-- The sums of the abscissas and of their squares, for as many values as there have been. -/
noncomputable def abscissas (n : Nat) (y xy : ℝ) : LineSums Exact :=
  ⟨.fin (n * (n - 1) / (2 : ℕ)), .fin y, .fin xy, .fin ((n - 1) * n * (n + n - 1) / (6 : ℕ))⟩

theorem lineSums_from (w : List ℝ) (n : Nat) (y xy : ℝ) :
    ∃ y' xy', ((w.map Exact.fin).zipIdx n).foldl (fun (s : LineSums Exact) (y, j) =>
      let x : Exact := Arith.ofCount j
      ⟨s.x + x, s.y + y, s.xy + x * y, s.xx + x * x⟩) (abscissas n y xy) =
        abscissas (n + w.length) y' xy' := by
  induction w generalizing n y xy with
  | nil => exact ⟨y, xy, rfl⟩
  | cons a w ih =>
    obtain ⟨y', xy', h⟩ := ih (n + 1) (y + a) (xy + n * a)
    refine ⟨y', xy', ?_⟩
    rw [List.map_cons, List.zipIdx_cons, List.foldl_cons, List.length_cons,
      show n + (w.length + 1) = n + 1 + w.length by omega, ← h]
    congr 1
    simp only [abscissas, Exact.ofCount_eq, Exact.fin_add, Exact.fin_mul, Nat.cast_add,
      Nat.cast_one, Nat.cast_ofNat]
    congr 2 <;> ring

theorem lineSums_finite (w : List ℝ) :
    ∃ y xy, lineSums (w.map Exact.fin) = abscissas w.length y xy := by
  obtain ⟨y, xy, h⟩ := lineSums_from w 0 0 0
  rw [Nat.zero_add] at h
  refine ⟨y, xy, ?_⟩
  rw [← h, lineSums]
  congr 1
  simp [abscissas]

/-- The determinant of the normal equations. -/
theorem determinant_ne_zero {n : Nat} (hn : 2 ≤ n) :
    (n : ℝ) * ((n - 1) * n * (n + n - 1) / 6) - n * (n - 1) / 2 * (n * (n - 1) / 2) ≠ 0 := by
  have hn' : (2 : ℝ) ≤ n := by exact_mod_cast hn
  have heq : (n : ℝ) * ((n - 1) * n * (n + n - 1) / 6) - n * (n - 1) / 2 * (n * (n - 1) / 2) =
      n * n * (n - 1) * (n + 1) / 12 := by ring
  rw [heq]
  have hless : (0 : ℝ) < n - 1 := by linarith
  positivity

theorem windowLine_finite {w : List ℝ} (hw : 1 ≤ w.length) (offset : Int) :
    ∃ x, windowLine (w.map Exact.fin) offset = .fin x := by
  match w, hw with
  | [v], _ => exact ⟨v, rfl⟩
  | a :: b :: rest, _ =>
    obtain ⟨y, xy, hsums⟩ := lineSums_finite (a :: b :: rest)
    have hdet := determinant_ne_zero (n := (a :: b :: rest).length) (by simp)
    have hn : ((a :: b :: rest).length : ℝ) ≠ 0 := by
      rw [Nat.cast_ne_zero]
      simp
    rw [windowLine, hsums]
    · simp only [abscissas, List.length_map, Exact.ofCount_eq, Exact.ofInt_eq, Exact.fin_mul,
        Exact.fin_sub, Exact.numeral_eq, Nat.cast_one, Nat.cast_ofNat, Exact.fin_div _ hdet,
        Exact.fin_div _ hn, Exact.fin_add]
      exact ⟨_, rfl⟩
    · rintro v h
      simp at h

theorem warm_linreg (hperiod : 1 ≤ period) (offset : Int) (h : Warm 0 xs) :
    Warm (period - 1) (linreg xs period offset) := by
  have hwarm := h.windowed hperiod (f := fun w => windowLine w offset)
    fun w hw => windowLine_finite (hw ▸ hperiod) offset
  rwa [Nat.zero_add] at hwarm

end BarScript
