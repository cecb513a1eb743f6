import Mathlib
import BarScript.Proofs.Gaps
import BarScript.Proofs.TrendLine

/-!
# A gap in front of the supertrend

A bar without prices has no line and no direction, and it moves neither the average range nor the
bands. The bar behind it still notices it: a band that the last close before the gap went beyond is
set anew by the next bar, and that close is no longer next to it. `supertrend_gap` says exactly when
the bands behind the gap are those without it: if the next bar replaces every band that was gone
beyond on its own account.
-/

namespace BarScript

variable {α : Type}

theorem insertIdx_append {β : Type} (xs ys : List β) (y : β) :
    (xs ++ ys).insertIdx xs.length y = xs ++ y :: ys := by
  induction xs with
  | nil => rfl
  | cons x xs ih => exact congrArg (x :: ·) ih

theorem zipWith_insertIdx {β γ δ : Type} (f : β → γ → δ) {xs : List β} {ys : List γ} {j : Nat}
    (h : j ≤ (List.zipWith f xs ys).length) (x : β) (y : γ) :
    List.zipWith f (xs.insertIdx j x) (ys.insertIdx j y) =
      (List.zipWith f xs ys).insertIdx j (f x y) := by
  induction j generalizing xs ys with
  | zero => rfl
  | succ j ih =>
    cases xs with
    | nil => exact absurd h (by simp)
    | cons a xs =>
      cases ys with
      | nil => exact absurd h (by simp)
      | cons b ys => exact congrArg (f a b :: ·) (ih (by simpa using h))

theorem Reach.zip_insertIdx {high low close : List α} {j : Nat}
    (h : j ≤ (Reach.zip high low close).length) (a b c : α) :
    Reach.zip (high.insertIdx j a) (low.insertIdx j b) (close.insertIdx j c) =
      (Reach.zip high low close).insertIdx j ⟨a, b, c⟩ := by
  have hpairs : j ≤ (List.zip high low).length := by
    rw [Reach.zip, List.length_zipWith] at h
    omega
  have hzip : List.zip (high.insertIdx j a) (low.insertIdx j b) =
      (List.zip high low).insertIdx j (a, b) := zipWith_insertIdx Prod.mk hpairs a b
  rw [Reach.zip, hzip]
  exact zipWith_insertIdx _ h (a, b) c

/-- A second reason to replace a value matters if the first one is missing and the value changes. -/
theorem ite_eq_ite_or_iff {β : Type} {p q : Prop} [Decidable p] [Decidable (p ∨ q)] {x y : β} :
    (if p then x else y) = (if p ∨ q then x else y) ↔ (q → p ∨ x = y) := by
  by_cases hp : p
  · simp [hp]
  · by_cases hq : q
    · simp [hp, hq, eq_comm]
    · simp [hp, hq]

variable [Arith α]

/-! ## The close before -/

/-- The input with no close before it. -/
def BandInput.forget (x : BandInput α) : BandInput α := { x with previousClose := Arith.nan }

/-- The input has its bands and its close. -/
def BandInput.Available (x : BandInput α) : Prop :=
  Arith.isNaN x.upper = false ∧ Arith.isNaN x.lower = false ∧ Arith.isNaN x.close = false

namespace Bands

/-- Every band that the close before went beyond is replaced by the bar on its own account. -/
structure IgnoresPrevious (b : Bands α) (x : BandInput α) : Prop where
  upper : b.upper < x.previousClose → x.upper < b.upper ∨ x.upper = b.upper
  lower : x.previousClose < b.lower → b.lower < x.lower ∨ x.lower = b.lower

section

variable [Arith.Lawful α]

theorem next_upper_forget (b : Bands α) (x : BandInput α) :
    (b.next x.forget).upper = if x.upper < b.upper then x.upper else b.upper := by
  have hnan : ¬ b.upper < (Arith.nan : α) := Arith.Lawful.lt (.inr Arith.Strict.isNaN_nan)
  simp only [next, BandInput.forget, hnan, or_false]

theorem next_lower_forget (b : Bands α) (x : BandInput α) :
    (b.next x.forget).lower = if b.lower < x.lower then x.lower else b.lower := by
  have hnan : ¬ (Arith.nan : α) < b.lower := Arith.Lawful.lt (.inl Arith.Strict.isNaN_nan)
  simp only [next, BandInput.forget, hnan, or_false]

/-- The close before matters if and only if it makes the bar replace a band it would have kept. -/
theorem next_forget_iff (b : Bands α) (x : BandInput α) :
    b.next x.forget = b.next x ↔ b.IgnoresPrevious x := by
  have hupper : (b.next x.forget).upper = (b.next x).upper ↔
      (b.upper < x.previousClose → x.upper < b.upper ∨ x.upper = b.upper) := by
    rw [next_upper_forget]
    exact ite_eq_ite_or_iff
  have hlower : (b.next x.forget).lower = (b.next x).lower ↔
      (x.previousClose < b.lower → b.lower < x.lower ∨ x.lower = b.lower) := by
    rw [next_lower_forget]
    exact ite_eq_ite_or_iff
  constructor
  · intro h
    exact ⟨hupper.1 (congrArg upper h), hlower.1 (congrArg lower h)⟩
  · intro h
    have hu := hupper.2 h.upper
    have hl := hlower.2 h.lower
    -- The close decides the trend from the two bands.
    have htrend : (b.next x.forget).trend = (b.next x).trend := by
      simp only [next] at hu hl ⊢
      rw [hu, hl]
      rfl
    generalize b.next x.forget = now at hu hl htrend
    cases now
    cases hnow : b.next x
    simp_all

end

/-! ## Traces over a split -/

theorem trace_append (state : Option (Bands α)) (xs ys : List (BandInput α)) :
    trace state (xs ++ ys) =
      trace state xs ++ trace ((newest? (trace state xs)).or state) ys := by
  induction xs generalizing state with
  | nil => rfl
  | cons x xs ih =>
    by_cases hx : x.Available
    · obtain ⟨hu, hl, hc⟩ := hx
      rw [List.cons_append, trace_available state _ hu hl hc, trace_available state _ hu hl hc, ih,
        newest?_cons, Option.or_assoc, Option.some_or, List.cons_append]
    · rw [List.cons_append, trace_unavailable state _ hx, trace_unavailable state _ hx, ih,
        newest?_cons, Option.or_none, List.cons_append]

theorem length_trace (state : Option (Bands α)) (xs : List (BandInput α)) :
    (trace state xs).length = xs.length :=
  (Barwise.scan (fun _ => rfl) trace_cons state).length xs

variable [Arith.Lawful α]

theorem trace_forget (state : Option (Bands α)) (x : BandInput α) (xs : List (BandInput α)) :
    trace state (x.forget :: xs) = trace state (x :: xs) ↔
      ∀ b ∈ state, x.Available → b.IgnoresPrevious x := by
  by_cases hx : x.Available
  · obtain ⟨hu, hl, hc⟩ := hx
    have hforget := trace_available (x := x.forget) state xs hu hl hc
    rw [hforget, trace_available state xs hu hl hc]
    cases state with
    | none =>
      -- The first bands do not look at the close before.
      exact iff_of_true rfl nofun
    | some b =>
      have hnext := next_forget_iff b x
      constructor
      · intro h b' hb' _
        obtain rfl := Option.some.inj hb'
        exact hnext.1 (Option.some.inj (List.cons.inj h).1)
      · intro h
        rw [after, after, hnext.2 (h b rfl ⟨hu, hl, hc⟩)]
  · have hforget := trace_unavailable (x := x.forget) state xs hx
    rw [hforget, trace_unavailable state xs hx]
    simp [hx]

end Bands

/-! ## Inputs over a split -/

/-- The inputs of bars behind others, from the range state and the close before. -/
def bandInputsFrom (factor : α) (ranges : RangeState α) (previousClose : α) :
    List (Reach α) → List (BandInput α)
  | [] => []
  | r :: bars =>
    let (range, ranges) := ranges.next r
    let middle := (r.high + r.low) / 2
    ⟨middle + factor * range, middle - factor * range, r.close, previousClose⟩ ::
      bandInputsFrom factor ranges r.close bars

theorem bandInputs_eq_from (high low close : List α) (factor : α) (period : Nat) :
    bandInputs high low close factor period =
      bandInputsFrom factor (.fresh period) Arith.nan (Reach.zip high low close) := by
  have hfrom : ∀ (ranges : RangeState α) (previousClose : α) (bars : List (Reach α)),
      List.zipWith (fun (br : Reach α × α) c =>
          let middle := (br.1.high + br.1.low) / 2
          (⟨middle + factor * br.2, middle - factor * br.2, br.1.close, c⟩ : BandInput α))
        (List.zip bars (replay ranges bars)) (previousClose :: bars.map (·.close)) =
        bandInputsFrom factor ranges previousClose bars := by
    intro ranges previousClose bars
    induction bars generalizing ranges previousClose with
    | nil => rfl
    | cons r bars ih => exact congrArg (_ :: ·) (ih _ _)
  exact hfrom _ _ _

theorem length_bandInputsFrom (factor : α) (ranges : RangeState α) (previousClose : α)
    (bars : List (Reach α)) :
    (bandInputsFrom factor ranges previousClose bars).length = bars.length := by
  induction bars generalizing ranges previousClose with
  | nil => rfl
  | cons r bars ih => exact congrArg (· + 1) (ih _ _)

theorem bandInputsFrom_append (factor : α) (ranges : RangeState α) (previousClose : α)
    (front back : List (Reach α)) :
    bandInputsFrom factor ranges previousClose (front ++ back) =
      bandInputsFrom factor ranges previousClose front ++
        bandInputsFrom factor (feed ranges front).2
          ((front.getLast?.map (·.close)).getD previousClose) back := by
  induction front generalizing ranges previousClose with
  | nil => rfl
  | cons r front ih =>
    have hclose : (((r :: front).getLast?.map (·.close)).getD previousClose) =
        (front.getLast?.map (·.close)).getD r.close := by
      rw [List.getLast?_cons]
      cases front.getLast? <;> rfl
    rw [hclose]
    exact congrArg (_ :: ·) (ih _ _)

/-! ## A gap -/

/-- A bar without prices. -/
def Reach.gap : Reach α := ⟨Arith.nan, Arith.nan, Arith.nan⟩

/-- The input of the first of some bars that follow a gap. -/
theorem bandInputsFrom_gap [Arith.Strict α] (factor : α) (ranges : RangeState α)
    (previousClose : α) (bars : List (Reach α)) :
    ∃ g : BandInput α, ¬ g.Available ∧
      bandInputsFrom factor ranges previousClose (Reach.gap :: bars) =
        g :: (bandInputsFrom factor ranges previousClose bars).modifyHead BandInput.forget := by
  have hgap : ranges.next Reach.gap = (Arith.nan, ranges) := by
    apply RangeState.next_gap
    simp [Reach.hasNaN, Reach.gap, Arith.Strict.isNaN_nan]
  rw [bandInputsFrom, hgap]
  refine ⟨_, fun h => ?_, congrArg (_ :: ·) ?_⟩
  · exact Bool.false_ne_true (h.2.2.symm.trans Arith.Strict.isNaN_nan)
  · cases bars <;> rfl

/-- The bar at the position does not need the close before it: every band that this close went
beyond, the bar replaces on its own account. -/
def Unbroken (high low close : List α) (factor : α) (period j : Nat) : Prop :=
  ∀ b x, Bands.newest? ((supertrendBands high low close factor period).take j) = some b →
    (bandInputs high low close factor period)[j]? = some x → x.Available → b.IgnoresPrevious x

/-- The bands over bars with a gap and without it. -/
theorem supertrendBands_split [Arith.Strict α] {high low close : List α} (factor : α)
    {period j : Nat} (hperiod : 1 ≤ period) (hj : period ≤ j)
    (hlength : j ≤ (Reach.zip high low close).length) :
    ∃ front : List (Option (Bands α)), front.length = j ∧
      supertrendBands high low close factor period =
        front ++ Bands.trace (Bands.newest? front)
          ((bandInputs high low close factor period).drop j) ∧
      supertrendBands (high.insertIdx j Arith.nan) (low.insertIdx j Arith.nan)
          (close.insertIdx j Arith.nan) factor period =
        front ++ none :: Bands.trace (Bands.newest? front)
          (((bandInputs high low close factor period).drop j).modifyHead BandInput.forget) := by
  obtain ⟨bars, back, hbars, rfl⟩ : ∃ bars back, Reach.zip high low close = bars ++ back ∧
      bars.length = j :=
    ⟨_, _, (List.take_append_drop j _).symm, List.length_take_of_le hlength⟩
  have hgapped := Reach.zip_insertIdx hlength Arith.nan Arith.nan (Arith.nan : α)
  rw [hbars, insertIdx_append, ← Reach.gap] at hgapped
  -- Both inputs start with those of the bars before the position.
  let ranges : RangeState α := .fresh period
  let last := (bars.getLast?.map (·.close)).getD Arith.nan
  let before := bandInputsFrom factor ranges Arith.nan bars
  let inputs := bandInputsFrom factor (feed ranges bars).2 last back
  obtain ⟨g, hg, hinputs⟩ := bandInputsFrom_gap factor (feed ranges bars).2 last back
  have hplain : bandInputs high low close factor period = before ++ inputs := by
    rw [bandInputs_eq_from, hbars, bandInputsFrom_append]
  have hgap : bandInputs (high.insertIdx bars.length Arith.nan)
      (low.insertIdx bars.length Arith.nan) (close.insertIdx bars.length Arith.nan) factor period =
        before ++ g :: inputs.modifyHead BandInput.forget := by
    rw [bandInputs_eq_from, hgapped, bandInputsFrom_append, hinputs]
  have hbefore : before.length = bars.length := length_bandInputsFrom _ _ _ _
  have hdrop : ∀ rest, (before ++ rest).drop period = before.drop period ++ rest := fun rest =>
    List.drop_append_of_le_length (by omega)
  have hmin : ∀ rest, min period (before ++ rest).length = period := fun rest => by
    rw [List.length_append]
    omega
  have hbehind : (bandInputs high low close factor period).drop bars.length = inputs := by
    rw [hplain, ← hbefore, List.drop_left]
  rw [hbehind]
  refine ⟨List.replicate period none ++ Bands.trace none (before.drop period), ?_, ?_, ?_⟩
  · rw [List.length_append, List.length_replicate, Bands.length_trace, List.length_drop]
    omega
  · rw [supertrendBands_eq _ _ _ _ hperiod, hplain, hmin, hdrop, Bands.trace_append,
      Bands.newest?_replicate_none, Option.or_none, List.append_assoc]
  · rw [supertrendBands_eq _ _ _ _ hperiod, hgap, hmin, hdrop, Bands.trace_append,
      Bands.trace_unavailable _ _ hg, Bands.newest?_replicate_none, Option.or_none,
      List.append_assoc]

/-- **A gap in front of the supertrend.** Whatever the prices, a bar without them that is put in
after the first `period` bars is without line and direction and changes nothing before it. Behind it
the bands are the same, shifted by one, if and only if the bar behind the gap replaces every band
that the close before the gap went beyond; then so are the lines and the directions. -/
theorem supertrend_gap [Arith.Lawful α] {high low close : List α} (factor : α) {period j : Nat}
    (hperiod : 1 ≤ period) (hj : period ≤ j) (hlength : j ≤ (Reach.zip high low close).length) :
    let plain := supertrend high low close factor period
    let gapped := supertrend (high.insertIdx j Arith.nan) (low.insertIdx j Arith.nan)
      (close.insertIdx j Arith.nan) factor period
    gapped.1.take (j + 1) = plain.1.take j ++ [Arith.nan] ∧
      gapped.2.take (j + 1) = plain.2.take j ++ [Arith.nan] ∧
      (supertrendBands (high.insertIdx j Arith.nan) (low.insertIdx j Arith.nan)
          (close.insertIdx j Arith.nan) factor period =
        (supertrendBands high low close factor period).insertIdx j none ↔
          Unbroken high low close factor period j) ∧
      (Unbroken high low close factor period j →
        gapped.1 = plain.1.insertIdx j Arith.nan ∧ gapped.2 = plain.2.insertIdx j Arith.nan) := by
  intro plain gapped
  obtain ⟨front, rfl, hplain, hgapped⟩ := supertrendBands_split factor hperiod hj hlength
  have hbands : supertrendBands (high.insertIdx front.length Arith.nan)
        (low.insertIdx front.length Arith.nan) (close.insertIdx front.length Arith.nan)
        factor period =
      (supertrendBands high low close factor period).insertIdx front.length none ↔
        Unbroken high low close factor period front.length := by
    rw [hgapped, hplain, insertIdx_append, List.append_cancel_left_eq, List.cons.injEq,
      Unbroken, hplain, List.take_left, ← List.head?_drop]
    cases (bandInputs high low close factor period).drop front.length with
    | nil => simp
    | cons x xs =>
      have hforget := Bands.trace_forget (Bands.newest? front) x xs
      simpa using hforget
  refine ⟨?_, ?_, hbands, fun h => ?_⟩
  · simp only [plain, gapped, supertrend, hplain, hgapped]
    simp [List.take_append]
  · simp only [plain, gapped, supertrend, hplain, hgapped]
    simp [List.take_append]
  · simp only [plain, gapped, supertrend, hbands.2 h, List.map_insertIdx]
    exact ⟨rfl, rfl⟩

/-- Four bars that fall twice, by enough to break the lower band, and rise again. -/
def fallHigh : List Float := [13, 10, 5, 10]

def fallLow : List Float := [11, 8, 3, 8]

def fallClose : List Float := [12, 9, 4, 9]

theorem supertrend_gap_fall :
    let plain := supertrend fallHigh fallLow fallClose 0.5 1
    let gapped := supertrend (fallHigh.insertIdx 2 Arith.nan) (fallLow.insertIdx 2 Arith.nan)
      (fallClose.insertIdx 2 Arith.nan) 0.5 1
    Arith.Lawful Float ∧ 1 ≤ 1 ∧ 1 ≤ 2 ∧ 2 ≤ (Reach.zip fallHigh fallLow fallClose).length ∧
      Unbroken fallHigh fallLow fallClose 0.5 1 2 ∧
      gapped.1 = plain.1.insertIdx 2 Arith.nan ∧ gapped.2 = plain.2.insertIdx 2 Arith.nan ∧
      plain.1 = [Arith.nan, 11, 7, 6] ∧ plain.2 = [Arith.nan, -1, -1, 1] := by
  intro plain gapped
  have hlength : 2 ≤ (Reach.zip fallHigh fallLow fallClose).length := by decide
  obtain ⟨-, -, hbands, hsame⟩ := supertrend_gap (0.5 : Float) le_rfl (by decide : 1 ≤ 2) hlength
  have hunbroken : Unbroken fallHigh fallLow fallClose 0.5 1 2 := hbands.1 (by decide +kernel)
  exact ⟨inferInstance, le_rfl, by decide, hlength, hunbroken, (hsame hunbroken).1,
    (hsame hunbroken).2, by decide +kernel, by decide +kernel⟩

/-- A bar without prices in front of the last of these bars changes its line: the third close went
below the lower band, which is not set anew when the gap hides that close. -/
theorem supertrend_gap_broken :
    let plain := supertrend fallHigh fallLow fallClose 0.5 1
    let gapped := supertrend (fallHigh.insertIdx 3 Arith.nan) (fallLow.insertIdx 3 Arith.nan)
      (fallClose.insertIdx 3 Arith.nan) 0.5 1
    (∀ x ∈ fallHigh ++ fallLow ++ fallClose, Arith.isNaN x = false) ∧ 1 < 3 ∧
      plain.1 = [Arith.nan, 11, 7, 6] ∧ gapped.1 = [Arith.nan, 11, 7, Arith.nan, 7] ∧
      gapped.1 ≠ plain.1.insertIdx 3 Arith.nan := by
  decide +kernel

end BarScript
