import BarScript.Proofs.Shape
import BarScript.Proofs.Variable

/-!
# Indexes

Everything in the evaluation of a compiled program that picks an element by its number picks one
that is there (`Program.InRange`, `Program.inRange`): the number arguments of an indicator call, the
values of a trailing window, those that a difference looks back to, and the history of a series.
-/

namespace BarScript

variable {α : Type} [Arith α]

/-! ## Arguments of an indicator -/

/-- An indicator reads no more arguments than it has parameters: what stands behind them changes
nothing. -/
theorem StudyCallOf.Fits.perform_append {k : StudyCall} (h : k.Fits) {nums : List α}
    (hnums : nums.length = k.args.length) (bs : List Bound) (xs : List α) (ctx : Context α) :
    StudyCallOf.perform ⟨k.study, k.args ++ bs, k.handle⟩ (nums ++ xs) ctx =
      k.perform nums ctx := by
  obtain ⟨study, args, handle⟩ := k
  have hargs : args.length = study.params.length := h.length_eq
  replace hnums : nums.length = args.length := hnums
  -- with the lists written out, both sides read the same elements
  cases study <;> rcases args with _ | ⟨a, _ | ⟨b, _ | ⟨c, _ | ⟨d, args⟩⟩⟩⟩ <;> cases hargs <;>
    rcases nums with _ | ⟨x, _ | ⟨y, _ | ⟨z, _ | ⟨u, nums⟩⟩⟩⟩ <;> cases hnums <;> rfl

/-- The arguments give one number each. -/
theorem Bound.length_evalAll (bs : List Bound) :
    Returns (fun nums : List α => nums.length = bs.length) (Bound.evalAll bs) := by
  induction bs with
  | nil => rw [Bound.evalAll]; exact .pure rfl
  | cons b bs ih =>
    rw [Bound.evalAll]
    refine .bind fun v c nums c' h => ?_
    obtain ⟨rest, c₁, hrest, h⟩ := eval_bind_ok h
    cases h
    exact congrArg (· + 1) (ih _ _ _ hrest)

/-! ## Windows and histories -/

/-- A trailing window is a run of the values, as long as its period, that ends at the position that
it is taken at. -/
theorem window?_eq_some {xs w : List α} {period i : Nat} (h : window? xs period i = some w) :
    ∃ older newer, xs = older ++ (w ++ newer) ∧ w.length = period ∧ 0 < period ∧
      older.length + period = i + 1 := by
  unfold window? at h
  split at h
  · cases h
  · rename_i hrange
    dsimp only at h
    split at h
    · cases h
    · cases h
      refine ⟨xs.take (i + 1 - period), (xs.drop (i + 1 - period)).drop period, ?_, ?_, ?_, ?_⟩
      · rw [List.take_append_drop, List.take_append_drop]
      · rw [List.length_take, List.length_drop]
        omega
      · omega
      · rw [List.length_take]
        omega

/-- A difference is taken of two values that are there. -/
theorem getElem?_lagged (xs : List α) {length i : Nat} (f : α → α → α) (hlength : 0 < length)
    (hle : length ≤ i) (hi : i < xs.length) : ∃ now before, xs[i]? = some now ∧
      xs[i - length]? = some before ∧ (lagged xs length f)[i]? = some (f now before) := by
  have hbefore : i - length < xs.length := by omega
  refine ⟨xs[i], xs[i - length], List.getElem?_eq_getElem hi, List.getElem?_eq_getElem hbefore, ?_⟩
  unfold lagged
  rw [List.getElem?_map, List.getElem?_range hi, Option.map_some, if_neg (by omega),
    List.getElem?_eq_getElem hi, List.getElem?_eq_getElem hbefore]

omit [Arith α] in
/-- At a bar of the market a quantity has a history of as many bars as there are up to it. -/
theorem Snapshot.size_view {β : Type} {s : Snapshot α} (h : s.bar < s.market.size)
    (f : Bar α → β) : (s.view f).size = s.bar + 1 := by
  have h' : s.bar < s.market.bars.size := h
  unfold Snapshot.view
  rw [dif_pos h']

omit [Arith α] in
/-- The time at a bar of the market is when the bar opened. -/
theorem Snapshot.now_eq {s : Snapshot α} (h : s.bar < s.market.bars.size) :
    s.now = s.market.bars[s.bar].openTime := by
  have hview : s.clock .opens = ⟨s.bar + 1, fun i => s.market.bars[i].openTime⟩ := dif_pos h
  rw [now, hview]
  simp [View.current?, View.ago?]

/-! ## Programs -/

/-- No index is out of range in the evaluation of a program. -/
structure Program.InRange (α : Type) [Arith α] (p : Program) : Prop where
  /-- An indicator has three number arguments at most, and reads nothing behind them. -/
  arguments : ∀ k, .call k ∈ p.spots → k.args.length ≤ 3 ∧
    ∀ (c c' : Context α) nums, Bound.evalAll k.args c = .ok nums c' →
      nums.length = k.args.length ∧ ∀ bs xs ctx,
        StudyCallOf.perform ⟨k.study, k.args ++ bs, k.handle⟩ (nums ++ xs) ctx = k.perform nums ctx
  values : ∀ k, .call k ∈ p.spots → ∀ (nums : List α) ctx,
    (k.perform nums ctx).1.length = k.arity
  functions : ∀ f args, .math f args ∈ p.spots → f.argCount.admits args.length = true
  windows : ∀ (xs w : List α) period i, window? xs period i = some w →
    ∃ older newer, xs = older ++ (w ++ newer) ∧ w.length = period ∧ 0 < period ∧
      older.length + period = i + 1
  differences : ∀ (xs : List α) length i (f : α → α → α), 0 < length → length ≤ i → i < xs.length →
    ∃ now before, xs[i]? = some now ∧ xs[i - length]? = some before ∧
      (lagged xs length f)[i]? = some (f now before)
  history : ∀ (v : View α) k, v.ago k = v.newestFirst[k]?.getD Arith.nan

/-- **No index is out of range** in a program whose spots are sound. -/
theorem Program.inRange {E : Expr → Prop} {p : Program} (h : ∀ pl ∈ p.spots, pl.Sound E) :
    p.InRange α where
  arguments k hk :=
    have hfits : k.Fits := h _ hk
    ⟨hfits.length_le, fun c c' nums hnums =>
      have hlength := Bound.length_evalAll k.args c nums c' hnums
      ⟨hlength, fun bs xs ctx => hfits.perform_append hlength bs xs ctx⟩⟩
  values k _ nums ctx := k.length_perform nums ctx
  functions f args hf := h _ hf
  windows _ _ _ _ := window?_eq_some
  differences xs _ _ f := getElem?_lagged xs f
  history v k := by rw [View.ago, View.ago?_eq]; rfl

end BarScript
