import Mathlib
import BarScript.Indicator.Mean
import BarScript.Indicator.Window
import BarScript.Proofs.Exact
import BarScript.Proofs.Trailing

/-!
# The running mean is the mean of the window

The state of the moving mean holds the newest `period` inputs and the number of those that are
unavailable; in every arithmetic an input keeps it so (`MeanState.Holds`). Its sum is the sum of the
available inputs in the window only where adding a number and subtracting it again changes nothing.
Exact arithmetic is such, the infinities being taken care of by summing anew, so there the moving
mean is a function of the trailing window (`sma_eq_windowed`, `running_mean`).
-/

namespace BarScript

variable {α β : Type}

/-- A window that is full loses its oldest element to a new one. -/
theorem newest_concat {n : Nat} (hn : 1 ≤ n) (xs : List β) (x : β) :
    newest n (xs ++ [x]) =
      (if (newest n xs).length = n then (newest n xs).tail else newest n xs) ++ [x] := by
  have hlength : (newest n xs).length = min n xs.length := length_newest n xs
  by_cases hfull : n ≤ xs.length
  · rw [if_pos (by omega), newest, newest, List.tail_drop, List.length_append,
      List.length_singleton, List.drop_append_of_le_length (by omega)]
    congr 2
    omega
  · have hconcat : (xs ++ [x]).length ≤ n := by
      rw [List.length_append, List.length_singleton]
      omega
    rw [if_neg (by omega), newest_of_length_le hconcat, newest_of_length_le (by omega)]

variable [Arith α]

/-- The elements that are available. -/
def available (xs : List α) : List α := xs.filter (!Arith.isNaN ·)

theorem available_eq_self {xs : List α} (h : xs.any Arith.isNaN = false) : available xs = xs := by
  rw [List.any_eq_false] at h
  exact List.filter_eq_self.2 fun x hx => by simpa using h x hx

/-- The trailing window is made of the newest of the elements up to the position. -/
theorem window?_eq_newest (xs : List α) {period i : Nat} (hperiod : 1 ≤ period)
    (hi : i < xs.length) :
    window? xs period i =
      if (newest period (xs.take (i + 1))).length < period ∨
          (newest period (xs.take (i + 1))).any Arith.isNaN = true then none
      else some (newest period (xs.take (i + 1))) := by
  have htake : (xs.take (i + 1)).length = i + 1 := List.length_take_of_le hi
  have hlength : (newest period (xs.take (i + 1))).length = min period (i + 1) := by
    rw [length_newest, htake]
  unfold window?
  by_cases hshort : i + 1 < period
  · rw [if_pos (.inr (.inl hshort)), if_pos (.inl (by omega))]
  · have hwindow : newest period (xs.take (i + 1)) = (xs.drop (i + 1 - period)).take period := by
      rw [newest, htake, List.drop_take, Nat.sub_sub_self (by omega)]
    have hfull : ¬ (newest period (xs.take (i + 1))).length < period := by omega
    rw [if_neg (by omega), ← hwindow]
    simp only [hfull, false_or]

/-- What is at a position is the value there. -/
theorem eq_of_map_range {f : Nat → β} {n i : Nat} {y : β}
    (h : ((List.range n).map f)[i]? = some y) : f i = y := by
  rw [List.getElem?_map, Option.map_eq_some_iff] at h
  obtain ⟨j, hj, hvalue⟩ := h
  obtain ⟨_, rfl⟩ := List.getElem?_eq_some_iff.1 hj
  rwa [List.getElem_range] at hvalue

theorem windowed_getElem? (xs : List α) (f : List α → α) {period i : Nat} (hperiod : 1 ≤ period)
    (hi : i < xs.length) :
    (windowed xs period f)[i]? =
      some (if (newest period (xs.take (i + 1))).length < period ∨
          (newest period (xs.take (i + 1))).any Arith.isNaN = true then Arith.nan
        else f (newest period (xs.take (i + 1)))) := by
  rw [windowed, List.getElem?_map, List.getElem?_range hi, Option.map_some,
    window?_eq_newest xs hperiod hi]
  split_ifs <;> rfl

theorem length_newest_take (xs : List β) {period i : Nat} (hi : i < xs.length)
    (hfull : period ≤ i + 1) : (newest period (xs.take (i + 1))).length = period :=
  length_newest_of_le (hfull.trans (List.length_take_of_le hi).ge)

namespace MeanState

/-! ## The window and the count -/

/-- The state after some inputs: the newest ones are in the window, and those of them that are
unavailable are counted. -/
structure Holds (s : MeanState α) (n : Nat) (seen : List α) : Prop where
  period : s.period = n
  window : s.window = newest n seen
  missing : s.missing = s.window.countP Arith.isNaN

@[simp] theorem dropOldest_period (s : MeanState α) : s.dropOldest.period = s.period := by
  unfold dropOldest
  split
  · rfl
  · dsimp only
    split_ifs <;> rfl

@[simp] theorem dropOldest_window (s : MeanState α) : s.dropOldest.window = s.window.tail := by
  unfold dropOldest
  split
  · simp_all
  · rename_i hwindow
    rw [hwindow]
    dsimp only
    split_ifs <;> rfl

theorem dropOldest_missing {s : MeanState α} (h : s.missing = s.window.countP Arith.isNaN) :
    s.dropOldest.missing = s.dropOldest.window.countP Arith.isNaN := by
  rw [dropOldest_window]
  unfold dropOldest
  split
  · simp_all
  · rename_i old rest hwindow
    rw [hwindow, List.countP_cons] at h
    rw [hwindow]
    dsimp only
    split_ifs with hold hfinite
    · simp [h, hold]
    · simp [h, hold]
    · simp [h, hold]

@[simp] theorem add_period (s : MeanState α) (x : α) : (s.add x).period = s.period := by
  unfold add
  dsimp only
  split_ifs <;> rfl

@[simp] theorem add_window (s : MeanState α) (x : α) : (s.add x).window = s.window ++ [x] := by
  unfold add
  dsimp only
  split_ifs <;> rfl

theorem add_missing {s : MeanState α} (h : s.missing = s.window.countP Arith.isNaN) (x : α) :
    (s.add x).missing = (s.add x).window.countP Arith.isNaN := by
  rw [add_window]
  unfold add
  dsimp only
  split_ifs with hx
  · simp [h, hx]
  · simp [h, hx]

theorem add_sum (s : MeanState α) (x : α) :
    (s.add x).sum = if Arith.isNaN x = true then s.sum else s.sum + x := by
  unfold add
  dsimp only
  split_ifs <;> rfl

/-- The state with room for an input. -/
def opened (s : MeanState α) : MeanState α :=
  if s.window.length = s.period then s.dropOldest else s

theorem next_eq {s : MeanState α} (h : 1 ≤ s.period) (x : α) :
    s.next x = ((s.opened.add x).mean, s.opened.add x) :=
  if_neg (by omega)

theorem next_output {s : MeanState α} (h : 1 ≤ s.period) (x : α) :
    (s.next x).1 = (s.next x).2.mean := by
  rw [next_eq h]

theorem feed_fresh_zero (xs : List α) :
    (feed (fresh 0 : MeanState α) xs).2 = fresh 0 := by
  induction xs with
  | nil => rfl
  | cons x xs ih => exact ih

variable {s : MeanState α} {period : Nat} {seen : List α}

theorem Holds.fresh (period : Nat) : (MeanState.fresh period : MeanState α).Holds period [] :=
  ⟨rfl, by simp [MeanState.fresh, newest], rfl⟩

theorem Holds.next (h : s.Holds period seen) (hperiod : 1 ≤ period) (x : α) :
    (s.next x).2.Holds period (seen ++ [x]) := by
  obtain ⟨hs, hwindow, hmissing⟩ := h
  rw [next_eq (by omega)]
  by_cases hfull : s.window.length = period
  · have hopened : s.opened = s.dropOldest := if_pos (by omega)
    refine ⟨?_, ?_, ?_⟩
    · rw [hopened, add_period, dropOldest_period, hs]
    · rw [newest_concat hperiod, ← hwindow, if_pos hfull, hopened, add_window, dropOldest_window]
    · rw [hopened]
      exact add_missing (dropOldest_missing hmissing) x
  · have hopened : s.opened = s := if_neg (by omega)
    refine ⟨?_, ?_, ?_⟩
    · rw [hopened, add_period, hs]
    · rw [newest_concat hperiod, ← hwindow, if_neg hfull, hopened, add_window]
    · rw [hopened]
      exact add_missing hmissing x

theorem Holds.feed (h : s.Holds period seen) (hperiod : 1 ≤ period) (xs : List α) :
    (feed s xs).2.Holds period (seen ++ xs) := by
  induction xs generalizing s seen with
  | nil =>
    rw [List.append_nil]
    exact h
  | cons x xs ih =>
    rw [List.append_cons]
    exact ih (h.next hperiod x)

theorem holds_feed_fresh (hperiod : 1 ≤ period) (xs : List α) :
    (feed (MeanState.fresh period : MeanState α) xs).2.Holds period xs :=
  (Holds.fresh period).feed hperiod xs

/-- A window without gaps has its mean from the sum. -/
theorem Holds.mean (h : s.Holds period seen) :
    s.mean = if (newest period seen).length < period ∨
        (newest period seen).any Arith.isNaN = true then Arith.nan
      else s.sum / Arith.ofCount period := by
  have hmissing : s.missing > 0 ↔ (newest period seen).any Arith.isNaN = true := by
    rw [h.missing, h.window, gt_iff_lt, List.countP_pos_iff, List.any_eq_true]
  rw [MeanState.mean, h.window, h.period]
  simp only [hmissing]

/-- An unavailable input that leaves the window was counted. -/
theorem Holds.missing_pos (h : s.Holds period seen) {old : α} (hold : s.window.head? = some old)
    (hnan : Arith.isNaN old = true) : 0 < s.missing := by
  rw [h.missing, List.countP_pos_iff]
  exact ⟨old, List.mem_of_head? hold, hnan⟩

end MeanState

/-! ## The sum -/

theorem sum_concat (xs : List α) (x : α) : Arith.sum (xs ++ [x]) = Arith.sum xs + x := by
  rw [Arith.sum, Arith.sum, List.foldl_append]
  rfl

theorem sum_available_concat (xs : List α) (x : α) :
    Arith.sum (available (xs ++ [x])) =
      if Arith.isNaN x = true then Arith.sum (available xs) else Arith.sum (available xs) + x := by
  unfold available
  split_ifs with hx
  · simp [hx]
  · simp [hx, sum_concat]

namespace Exact

protected theorem add_comm (a b : Exact) : a + b = b + a := by
  change Exact.add a b = Exact.add b a
  rcases a with x | m | _ <;> rcases b with y | n | _ <;> simp only [Exact.add]
  · rw [add_comm]
  · cases m <;> cases n <;> rfl

protected theorem add_assoc (a b c : Exact) : a + b + c = a + (b + c) := by
  change Exact.add (Exact.add a b) c = Exact.add a (Exact.add b c)
  rcases a with x | m | _ <;> rcases b with y | n | _ <;> rcases c with z | k | _
  case fin.fin.fin => simp only [Exact.add, add_assoc]
  case inf.inf.inf => cases m <;> cases n <;> cases k <;> rfl
  case inf.inf.fin => cases m <;> cases n <;> rfl
  case inf.inf.nan => cases m <;> cases n <;> rfl
  case fin.inf.inf => cases n <;> cases k <;> rfl
  case inf.fin.inf => cases m <;> cases k <;> rfl
  all_goals rfl

instance : Std.Associative (α := Exact) (· + ·) := ⟨Exact.add_assoc⟩

theorem sum_cons (a : Exact) (xs : List Exact) : Arith.sum (a :: xs) = a + Arith.sum xs := by
  rw [Arith.sum, Arith.sum, List.foldl_cons, Exact.add_comm, List.foldl_assoc]

/-- A finite number added and subtracted again. -/
theorem add_sub_cancel (x : ℝ) (a : Exact) : fin x + a - fin x = a := by
  change Exact.add (Exact.add (fin x) a) (neg (fin x)) = a
  cases a with
  | fin y =>
    change fin (x + y + -x) = fin y
    congr 1
    ring
  | inf m => rfl
  | nan => rfl

end Exact

namespace MeanState

variable {s : MeanState Exact}

theorem dropOldest_sum (h : s.sum = Arith.sum (available s.window)) :
    s.dropOldest.sum = Arith.sum (available s.window.tail) := by
  unfold dropOldest
  split
  · simp_all
  · rename_i old rest hwindow
    rw [hwindow] at h
    rw [hwindow, List.tail_cons]
    cases old with
    | nan => exact h
    | inf m => rfl
    | fin x =>
      have hold : available (Exact.fin x :: rest) = .fin x :: available rest := rfl
      have hsum : s.sum = .fin x + Arith.sum (available rest) := by
        rw [h, hold, Exact.sum_cons]
      change s.sum - .fin x = Arith.sum (available rest)
      rw [hsum, Exact.add_sub_cancel]

theorem next_sum (h : s.sum = Arith.sum (available s.window)) (hperiod : 1 ≤ s.period) (x : Exact) :
    (s.next x).2.sum = Arith.sum (available (s.next x).2.window) := by
  have hopened : s.opened.sum = Arith.sum (available s.opened.window) := by
    unfold opened
    split_ifs
    · rw [dropOldest_window]
      exact dropOldest_sum h
    · exact h
  rw [next_eq hperiod, add_window, add_sum, sum_available_concat, hopened]

/-- A state whose sum is the one of its window. -/
structure Sums (s : MeanState Exact) (n : Nat) (seen : List Exact) : Prop extends
    s.Holds n seen where
  sum : s.sum = Arith.sum (available s.window)

theorem Sums.fresh (period : Nat) : (MeanState.fresh period : MeanState Exact).Sums period [] where
  toHolds := .fresh period
  sum := by simp [MeanState.fresh, available, Arith.sum]

theorem Sums.next {period : Nat} {seen : List Exact} (h : s.Sums period seen)
    (hperiod : 1 ≤ period) (x : Exact) : (s.next x).2.Sums period (seen ++ [x]) where
  toHolds := h.toHolds.next hperiod x
  sum := next_sum h.sum (h.period ▸ hperiod) x

theorem Sums.feed {period : Nat} {seen : List Exact} (h : s.Sums period seen)
    (hperiod : 1 ≤ period) (xs : List Exact) : (feed s xs).2.Sums period (seen ++ xs) := by
  induction xs generalizing s seen with
  | nil =>
    rw [List.append_nil]
    exact h
  | cons x xs ih =>
    rw [List.append_cons]
    exact ih (h.next hperiod x)

theorem sums_feed_fresh {period : Nat} (hperiod : 1 ≤ period) (xs : List Exact) :
    (feed (MeanState.fresh period : MeanState Exact) xs).2.Sums period xs :=
  (Sums.fresh period).feed hperiod xs

/-- The mean of a state is the one of the newest inputs. -/
theorem Sums.mean {period : Nat} {seen : List Exact} (h : s.Sums period seen) :
    s.mean = if (newest period seen).length < period ∨
        (newest period seen).any Arith.isNaN = true then .nan
      else Arith.sum (newest period seen) / Arith.ofCount period := by
  rw [h.toHolds.mean]
  split_ifs with hgap
  · rfl
  · rw [not_or, Bool.not_eq_true] at hgap
    rw [h.sum, h.window, available_eq_self hgap.2]

end MeanState

/-- The mean at a position, from the newest inputs up to it. -/
theorem sma_getElem? {period : Nat} (hperiod : 1 ≤ period) {xs : List Exact} {i : Nat}
    (hi : i < xs.length) :
    (sma xs period)[i]? = some
      (if (newest period (xs.take (i + 1))).length < period ∨
          (newest period (xs.take (i + 1))).any Arith.isNaN = true then .nan
        else Arith.sum (newest period (xs.take (i + 1))) / Arith.ofCount period) := by
  have hx : xs[i]? = some xs[i] := List.getElem?_eq_getElem hi
  have hbefore := MeanState.sums_feed_fresh hperiod (xs.take i)
  generalize hs : (feed (MeanState.fresh period : MeanState Exact) (xs.take i)).2 = s at hbefore
  have houtput := MeanState.next_output (hbefore.period ▸ hperiod) xs[i]
  have hnext := hbefore.next hperiod xs[i]
  rw [List.take_append_getElem hi] at hnext
  rw [sma, replay_getElem? _ hx, hs, ← hnext.mean, ← houtput]
  rfl

/-- In exact arithmetic the moving mean is a function of the trailing window. -/
theorem sma_eq_windowed (xs : List Exact) (period : Nat) :
    sma xs period = windowed xs period fun w => Arith.sum w / Arith.ofCount period := by
  apply List.ext_getElem?
  intro i
  rcases Nat.lt_or_ge i xs.length with hi | hi
  · have hx : xs[i]? = some xs[i] := List.getElem?_eq_getElem hi
    rw [windowed, List.getElem?_map, List.getElem?_range hi, Option.map_some]
    rcases Nat.eq_zero_or_pos period with rfl | hperiod
    · have hempty : window? xs 0 i = none := if_pos (.inl rfl)
      rw [sma, replay_getElem? _ hx, MeanState.feed_fresh_zero, hempty]
      rfl
    · rw [sma_getElem? hperiod hi, window?_eq_newest xs hperiod hi]
      split_ifs <;> rfl
  · rw [List.getElem?_eq_none, List.getElem?_eq_none]
    · simpa using hi
    · simpa [sma] using hi

/-- **The running mean is the mean of the window.** For every period and all exact inputs,
infinities and unavailable ones among them: the output at a position is unavailable as long as there
are not `period` inputs or one of the newest `period` ones is unavailable, and is otherwise their
sum over `period`. The state holds exactly the newest inputs, at most `period`, and counts the
unavailable ones among them, so that none leaves the window uncounted. -/
theorem running_mean {period : Nat} (hperiod : 1 ≤ period) (xs : List Exact) :
    (∀ i < xs.length, ∃ y, (sma xs period)[i]? = some y ∧
      (i + 1 < period ∨ .nan ∈ newest period (xs.take (i + 1)) → y = .nan) ∧
      (period ≤ i + 1 → .nan ∉ newest period (xs.take (i + 1)) →
        (newest period (xs.take (i + 1))).length = period ∧
          y = Arith.sum (newest period (xs.take (i + 1))) / .fin period)) ∧
      ∀ n, let s := (feed (MeanState.fresh period : MeanState Exact) (xs.take n)).2
        s.window = newest period (xs.take n) ∧ s.window.length ≤ period ∧
          s.missing = s.window.countP Arith.isNaN ∧
          ∀ old, s.window.head? = some old → Arith.isNaN old = true → 1 ≤ s.missing := by
  constructor
  · intro i hi
    refine ⟨_, sma_getElem? hperiod hi, ?_⟩
    have hlength : (newest period (xs.take (i + 1))).length = min period (i + 1) := by
      rw [length_newest, List.length_take_of_le hi]
    have hgap : (newest period (xs.take (i + 1))).any Arith.isNaN = true ↔
        .nan ∈ newest period (xs.take (i + 1)) := by
      simp [List.any_eq_true, Exact.isNaN_iff]
    constructor
    · intro h
      exact if_pos (h.imp (by omega) hgap.2)
    · intro hfull hnone
      have hwindow : (newest period (xs.take (i + 1))).length = period := by omega
      rw [if_neg (not_or.2 ⟨by omega, mt hgap.1 hnone⟩), Exact.ofCount_eq]
      exact ⟨hwindow, rfl⟩
  · intro n s
    have hs : s.Sums period (xs.take n) := MeanState.sums_feed_fresh hperiod (xs.take n)
    refine ⟨hs.window, ?_, hs.missing, fun old => hs.toHolds.missing_pos⟩
    rw [hs.window]
    exact length_newest_le period _

/-- Two infinities of opposite signs make the sum unavailable while they are both in the window, and
leave no trace when they are gone. -/
theorem running_mean_infinities :
    1 ≤ 2 ∧ (sma [.inf false, .inf true, .fin 1, .fin 3] 2)[1]? = some Exact.nan ∧
      (sma [.inf false, .inf true, .fin 1, .fin 3] 2)[3]? = some (Exact.fin 2) := by
  obtain ⟨houtputs, -⟩ :=
    running_mean (by decide : 1 ≤ 2) [.inf false, .inf true, .fin 1, .fin 3]
  obtain ⟨y, hy, -, hmean⟩ := houtputs 1 (by decide)
  obtain ⟨z, hz, -, hmean'⟩ := houtputs 3 (by decide)
  refine ⟨by decide, ?_, ?_⟩
  · rw [hy, (hmean (by decide) (by simp [newest])).2]
    rfl
  · rw [hz, (hmean' (by decide) (by simp [newest])).2]
    simp [newest, Arith.sum, Exact.fin_div _ two_ne_zero]
    norm_num

end BarScript
