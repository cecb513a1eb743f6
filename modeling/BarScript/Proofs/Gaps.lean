import Mathlib
import BarScript.Indicator.Strength
import BarScript.Indicator.TrueRange
import BarScript.Proofs.Unavailable

/-!
# Recurrences pass over gaps

A recurrence gives nothing at a gap and goes on behind it as if the gap were not there. `PassesOver`
says so of any positions at which all inputs are gaps, since that is what a recurrence needs of the
one below it in a stack: it is kept by composition, and by combining two outputs position by
position. Read at all gaps of a series, it is `passes_over_gaps`.
-/

namespace BarScript

variable {ι α β γ δ : Type}

/-! ## Positions -/

/-- The elements at the positions that are kept. -/
def sift (keep : List Bool) (xs : List β) : List β := ((keep.zip xs).filter (·.1)).map (·.2)

/-- Every position that is not kept holds a gap. -/
def Covers (gap : β → Bool) (keep : List Bool) (xs : List β) : Prop :=
  List.Forall₂ (fun k x => k = false → gap x = true) keep xs

@[simp] theorem sift_nil (keep : List Bool) : sift keep ([] : List β) = [] := by
  simp [sift]

@[simp] theorem sift_none (xs : List β) : sift [] xs = [] := rfl

@[simp] theorem sift_true (keep : List Bool) (x : β) (xs : List β) :
    sift (true :: keep) (x :: xs) = x :: sift keep xs := rfl

@[simp] theorem sift_false (keep : List Bool) (x : β) (xs : List β) :
    sift (false :: keep) (x :: xs) = sift keep xs := rfl

theorem sift_zipWith (f : β → γ → δ) (keep : List Bool) (xs : List β) (ys : List γ) :
    sift keep (List.zipWith f xs ys) = List.zipWith f (sift keep xs) (sift keep ys) := by
  induction keep generalizing xs ys with
  | nil => rfl
  | cons k keep ih =>
    cases xs with
    | nil => simp
    | cons x xs =>
      cases ys with
      | nil => simp
      | cons y ys => cases k <;> simp [ih]

theorem sift_map (p : ι → Bool) (xs : List ι) (ys : List β) :
    sift (xs.map p) ys = ((xs.zip ys).filter (p ·.1)).map (·.2) := by
  induction xs generalizing ys with
  | nil => rfl
  | cons x xs ih =>
    cases ys with
    | nil => rfl
    | cons y ys => cases h : p x <;> simp [h, ih]

/-- The positions of a series that are no gaps. -/
theorem sift_available (gap : β → Bool) (xs : List β) :
    sift (xs.map (!gap ·)) xs = xs.filter (!gap ·) := by
  induction xs with
  | nil => rfl
  | cons x xs ih => cases h : gap x <;> simp [h, ih]

theorem covers_available (gap : β → Bool) (xs : List β) : Covers gap (xs.map (!gap ·)) xs := by
  unfold Covers
  induction xs with
  | nil => exact .nil
  | cons x xs ih => exact .cons (by simp) ih

/-- Two series that are covered, combined so that two gaps make a gap. -/
theorem Covers.zipWith {gap : β → Bool} {gap' : γ → Bool} {gap'' : δ → Bool} {f : β → γ → δ}
    (hf : ∀ a b, gap a = true → gap' b = true → gap'' (f a b) = true) {keep : List Bool}
    {xs : List β} {ys : List γ} (hx : Covers gap keep xs) (hy : Covers gap' keep ys) :
    Covers gap'' keep (List.zipWith f xs ys) := by
  unfold Covers at hx hy ⊢
  induction hx generalizing ys with
  | nil =>
    cases hy
    exact .nil
  | cons hk _ ih =>
    cases hy with
    | cons hk' hy => exact .cons (fun hkeep => hf _ _ (hk hkeep) (hk' hkeep)) (ih hy)

/-! ## Functions of series -/

/-- Positions that hold gaps only may be left out: the outputs there are gaps, and the others are
the outputs over the rest. -/
structure PassesOver (gap : ι → Bool) (gap' : β → Bool) (F : List ι → List β) : Prop where
  covers : ∀ {keep : List Bool} {xs : List ι}, Covers gap keep xs → Covers gap' keep (F xs)
  rest : ∀ {keep : List Bool} {xs : List ι}, Covers gap keep xs →
    F (sift keep xs) = sift keep (F xs)

namespace PassesOver

variable {gap : ι → Bool} {gap' : β → Bool} {F : List ι → List β}

/-- A recurrence on top of another one. -/
theorem comp {gap'' : γ → Bool} {G : List β → List γ} (hG : PassesOver gap' gap'' G)
    (hF : PassesOver gap gap' F) : PassesOver gap gap'' fun xs => G (F xs) where
  covers h := hG.covers (hF.covers h)
  rest h := by rw [hF.rest h, hG.rest (hF.covers h)]

/-- Two outputs combined, if two gaps make a gap. -/
theorem zipWith {gapG : γ → Bool} {gap'' : δ → Bool} {G : List ι → List γ} {f : β → γ → δ}
    (hF : PassesOver gap gap' F) (hG : PassesOver gap gapG G)
    (hf : ∀ a b, gap' a = true → gapG b = true → gap'' (f a b) = true) :
    PassesOver gap gap'' fun xs => List.zipWith f (F xs) (G xs) where
  covers h := (hF.covers h).zipWith hf (hG.covers h)
  rest h := by rw [hF.rest h, hG.rest h, sift_zipWith]

/-- A streaming state that a gap leaves as it is, giving a gap. -/
theorem replay [Streaming σ ι β] {s : σ}
    (hskip : ∀ (s : σ) (x : ι), gap x = true → ∃ y, Streaming.next s x = (y, s) ∧ gap' y = true) :
    PassesOver gap gap' (BarScript.replay s) := by
  have hboth : ∀ {keep : List Bool} {xs : List ι}, Covers gap keep xs → ∀ s : σ,
      Covers gap' keep (BarScript.replay s xs) ∧
        BarScript.replay s (sift keep xs) = sift keep (BarScript.replay s xs) := by
    intro keep xs h
    unfold Covers at h ⊢
    induction h with
    | nil => exact fun s => ⟨.nil, rfl⟩
    | @cons k x keep xs hk _ ih =>
      intro s
      obtain ⟨hcovers, hrest⟩ := ih (Streaming.next s x).2
      cases k with
      | true => exact ⟨.cons nofun hcovers, congrArg (_ :: ·) hrest⟩
      | false =>
        obtain ⟨y, hnext, hy⟩ := hskip s x (hk rfl)
        rw [hnext] at hcovers hrest
        have hreplay : BarScript.replay s (x :: xs) = y :: BarScript.replay s xs := by
          simp only [BarScript.replay, feed, hnext]
        rw [hreplay]
        exact ⟨.cons (fun _ => hy) hcovers, hrest⟩
  exact ⟨fun h => (hboth h s).1, fun h => (hboth h s).2⟩

end PassesOver

/-- At every gap the output is unavailable, and the other outputs, in their order, are the outputs
over the series without its gaps. -/
structure SkipsGaps [Arith α] (gap : ι → Bool) (F : List ι → List α) (xs : List ι) : Prop where
  gaps : ∀ (i : Nat) (x : ι), xs[i]? = some x → gap x = true →
    ∃ y, (F xs)[i]? = some y ∧ Arith.isNaN y = true
  others : ((xs.zip (F xs)).filter (!gap ·.1)).map (·.2) = F (xs.filter (!gap ·))

theorem PassesOver.skipsGaps [Arith α] {gap : ι → Bool} {F : List ι → List α}
    (h : PassesOver gap Arith.isNaN F) (xs : List ι) : SkipsGaps gap F xs := by
  have hcovers := covers_available gap xs
  refine ⟨fun i x hx hgap => ?_, ?_⟩
  · have houtputs := h.covers hcovers
    have hi : i < xs.length := (List.getElem?_eq_some_iff.1 hx).1
    have hlength : (F xs).length = xs.length := by
      rw [← houtputs.length_eq, List.length_map]
    refine ⟨(F xs)[i], List.getElem?_eq_getElem _, ?_⟩
    refine houtputs.get (by simpa using hi) (by omega) ?_
    obtain ⟨_, rfl⟩ := List.getElem?_eq_some_iff.1 hx
    simpa using hgap
  · rw [← sift_map (!gap ·), ← sift_available, h.rest hcovers]

/-! ## The recurrences -/

section

variable [Arith α]

theorem SmoothedState.next_gap (s : SmoothedState α) {x : α} (h : Arith.isNaN x = true) :
    s.next x = (Arith.nan, s) := if_pos (.inr h)

theorem StrengthState.next_gap (s : StrengthState α) {x : α} (h : Arith.isNaN x = true) :
    s.next x = (Arith.nan, s) := if_pos (.inr h)

theorem RangeState.next_gap (s : RangeState α) {r : Reach α} (h : r.hasNaN = true) :
    s.next r = (Arith.nan, s) := if_pos h

variable [Arith.Strict α]

theorem passesOver_smoothed (s : SmoothedState α) :
    PassesOver Arith.isNaN Arith.isNaN (replay s) :=
  .replay fun s _ h => ⟨_, s.next_gap h, Arith.Strict.isNaN_nan⟩

theorem passesOver_rsi (period : Nat) :
    PassesOver Arith.isNaN Arith.isNaN fun xs : List α => rsi xs period :=
  .replay fun s _ h => ⟨_, StrengthState.next_gap s h, Arith.Strict.isNaN_nan⟩

theorem passesOver_ema (period : Nat) :
    PassesOver Arith.isNaN Arith.isNaN fun xs : List α => ema xs period :=
  passesOver_smoothed _

theorem passesOver_rma (period : Nat) :
    PassesOver Arith.isNaN Arith.isNaN fun xs : List α => rma xs period :=
  passesOver_smoothed _

theorem passesOver_dema (period : Nat) :
    PassesOver Arith.isNaN Arith.isNaN fun xs : List α => dema xs period := by
  have hema := passesOver_ema (α := α) period
  refine hema.zipWith (hema.comp hema) fun a b ha _ => ?_
  exact Arith.Strict.sub (.inl (Arith.Strict.mul (.inr ha)))

theorem passesOver_tema (period : Nat) :
    PassesOver Arith.isNaN Arith.isNaN fun xs : List α => tema xs period := by
  have hema := passesOver_ema (α := α) period
  have hpair : PassesOver Arith.isNaN (fun ab : α × α => Arith.isNaN ab.1) fun xs =>
      List.zipWith Prod.mk (ema xs period) (ema (ema xs period) period) :=
    hema.zipWith (hema.comp hema) fun _ _ ha _ => ha
  refine hpair.zipWith (hema.comp (hema.comp hema)) fun ab c hab _ => ?_
  exact Arith.Strict.add (.inl (Arith.Strict.sub (.inl (Arith.Strict.mul (.inr hab)))))

omit [Arith.Strict α] in
theorem atr_columns (bars : List (Reach α)) (period : Nat) :
    atr (bars.map (·.high)) (bars.map (·.low)) (bars.map (·.close)) period =
      replay (RangeState.fresh period : RangeState α) bars := by
  rw [atr, Reach.zip_map, List.map_id']

theorem passesOver_atr (period : Nat) :
    PassesOver Reach.hasNaN Arith.isNaN fun bars : List (Reach α) =>
      atr (bars.map (·.high)) (bars.map (·.low)) (bars.map (·.close)) period := by
  simp only [atr_columns]
  exact .replay fun s _ h => ⟨_, RangeState.next_gap s h, Arith.Strict.isNaN_nan⟩

/-- **Gaps leave no trace.** In every arithmetic with strict operations, whatever the period and the
inputs, the recurrences are unavailable at a gap, and give elsewhere what they give over the series
without its gaps. A bar is a gap if any of its prices is unavailable. -/
theorem passes_over_gaps (period : Nat) :
    (∀ xs : List α,
      SkipsGaps Arith.isNaN (fun xs => ema xs period) xs ∧
        SkipsGaps Arith.isNaN (fun xs => rma xs period) xs ∧
        SkipsGaps Arith.isNaN (fun xs => dema xs period) xs ∧
        SkipsGaps Arith.isNaN (fun xs => tema xs period) xs ∧
        SkipsGaps Arith.isNaN (fun xs => rsi xs period) xs) ∧
      ∀ bars : List (Reach α), SkipsGaps Reach.hasNaN (fun bars =>
        atr (bars.map (·.high)) (bars.map (·.low)) (bars.map (·.close)) period) bars :=
  ⟨fun xs => ⟨(passesOver_ema period).skipsGaps xs, (passesOver_rma period).skipsGaps xs,
      (passesOver_dema period).skipsGaps xs, (passesOver_tema period).skipsGaps xs,
      (passesOver_rsi period).skipsGaps xs⟩,
    (passesOver_atr period).skipsGaps⟩

end

/-- Doubles with a gap at the start and one in the middle, and three bars of which the second one
has no low. -/
theorem passes_over_gaps_double :
    let xs : List Float := [Arith.nan, 1, 3, Arith.nan, 5]
    let bars : List (Reach Float) := [⟨3, 1, 2⟩, ⟨4, Arith.nan, 3⟩, ⟨5, 3, 4⟩]
    Arith.Strict Float ∧ SkipsGaps Arith.isNaN (fun xs => rma xs 2) xs ∧
      rma xs 2 = [Arith.nan, Arith.nan, 2, Arith.nan, 3.5] ∧
      rma [1, 3, 5] 2 = [Arith.nan, 2, (3.5 : Float)] ∧
      SkipsGaps Arith.isNaN (fun xs => tema xs 2) xs ∧
      SkipsGaps Reach.hasNaN (fun bars =>
        atr (bars.map (·.high)) (bars.map (·.low)) (bars.map (·.close)) 2) bars := by
  intro xs bars
  obtain ⟨hseries, hbars⟩ := passes_over_gaps (α := Float) 2
  refine ⟨inferInstance, (hseries xs).2.1, by decide +kernel, by decide +kernel,
    (hseries xs).2.2.2.1, hbars bars⟩

end BarScript
