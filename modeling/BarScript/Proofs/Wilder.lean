import Mathlib
import BarScript.Proofs.Exact
import BarScript.Proofs.Gaps

/-!
# Wilder's index

`wilder period xs` is Wilder's average of some numbers: the mean of the first `period` of them, into
which every further one goes with one part in `period`. In exact arithmetic a state of the index that
has taken some numbers in holds the averages of their gains and of their losses
(`StrengthState.Tracks`), or the sums as long as there are too few; a gap leaves it alone. So the
index is Wilder's at every position (`StrengthState.replay_tracks`), which puts it between 0 and 100
and says what its extremes mean (`rsi_wilder`).
-/

namespace BarScript

/-! ## The average -/

/-- Wilder's average of numbers, at least `period` of them. -/
noncomputable def wilder (period : Nat) (xs : List ℝ) : ℝ :=
  (xs.drop period).foldl (fun average x => (average * (period - 1) + x) / period)
    ((xs.take period).sum / period)

section

variable {period : Nat} {xs : List ℝ}

theorem wilder_of_length_eq (h : xs.length = period) : wilder period xs = xs.sum / period := by
  rw [wilder, List.drop_of_length_le h.le, List.take_of_length_le h.le, List.foldl_nil]

theorem wilder_concat (h : period ≤ xs.length) (x : ℝ) :
    wilder period (xs ++ [x]) = (wilder period xs * (period - 1) + x) / period := by
  rw [wilder, List.drop_append_of_le_length h, List.take_append_of_le_length h, List.foldl_append]
  rfl

theorem wilder_nonneg (hperiod : 1 ≤ period) (h : ∀ x ∈ xs, 0 ≤ x) : 0 ≤ wilder period xs := by
  have hrest : (0 : ℝ) ≤ period - 1 := by
    rw [sub_nonneg]
    exact_mod_cast hperiod
  induction xs using List.reverseRecOn with
  | nil => simp [wilder]
  | append_singleton xs x ih =>
    obtain ⟨hxs, hx⟩ : (∀ y ∈ xs, 0 ≤ y) ∧ 0 ≤ x := by simpa using List.forall_mem_append.1 h
    rcases Nat.lt_or_ge xs.length period with hshort | hfull
    · have hlength : (xs ++ [x]).length ≤ period := by simpa using hshort
      rw [wilder, List.drop_of_length_le hlength, List.take_of_length_le hlength, List.foldl_nil]
      exact div_nonneg (List.sum_nonneg h) (Nat.cast_nonneg period)
    · rw [wilder_concat hfull]
      have := ih hxs
      positivity

/-- With a period of at least two nothing that has gone into the average vanishes. -/
theorem wilder_eq_zero_iff (hperiod : 2 ≤ period) (hfull : period ≤ xs.length)
    (h : ∀ x ∈ xs, 0 ≤ x) : wilder period xs = 0 ↔ ∀ x ∈ xs, x = 0 := by
  have hne : (period : ℝ) ≠ 0 := by
    rw [Nat.cast_ne_zero]
    omega
  have hrest : (0 : ℝ) < period - 1 := by
    rw [sub_pos]
    exact_mod_cast hperiod
  induction xs using List.reverseRecOn with
  | nil =>
    rw [List.length_nil] at hfull
    omega
  | append_singleton xs x ih =>
    rcases hfull.eq_or_lt with hlength | hlonger
    · rw [wilder_of_length_eq hlength.symm, div_eq_zero_iff, or_iff_left hne]
      exact ⟨fun hsum _ => List.all_zero_of_le_zero_le_of_sum_eq_zero h hsum, List.sum_eq_zero⟩
    · rw [List.length_append, List.length_singleton] at hlonger
      have hlength : period ≤ xs.length := by omega
      obtain ⟨hxs, hx⟩ : (∀ y ∈ xs, 0 ≤ y) ∧ 0 ≤ x := by simpa using List.forall_mem_append.1 h
      have haverage := wilder_nonneg (by omega : 1 ≤ period) hxs
      have hzero : wilder period xs = 0 ↔ ∀ y ∈ xs, y = 0 := ih hlength hxs
      rw [wilder_concat hlength, div_eq_zero_iff, or_iff_left hne,
        add_eq_zero_iff_of_nonneg (mul_nonneg haverage hrest.le) hx, mul_eq_zero,
        or_iff_left hrest.ne', hzero, List.forall_mem_append, List.forall_mem_singleton]

end

/-! ## Gains and losses -/

/-- The moves from each number to the next. -/
def moves (xs : List ℝ) : List ℝ := List.zipWith (fun x y => y - x) xs xs.tail

/-- What each move went up. -/
noncomputable def gains (xs : List ℝ) : List ℝ := (moves xs).map (max · 0)

/-- What each move went down. -/
noncomputable def losses (xs : List ℝ) : List ℝ := (moves xs).map (max (-·) 0)

/-- The index of an average gain and an average loss. -/
noncomputable def strength (gain loss : ℝ) : ℝ :=
  if loss = 0 then 100 else 100 - 100 / (1 + gain / loss)

/-- Wilder's index of the numbers seen so far. -/
noncomputable def wilderIndex (period : Nat) (seen : List ℝ) : ℝ :=
  strength (wilder period (gains seen)) (wilder period (losses seen))

@[simp] theorem length_moves (xs : List ℝ) : (moves xs).length = xs.length - 1 := by
  rw [moves, List.length_zipWith, List.length_tail]
  omega

theorem moves_concat (xs : List ℝ) (x y : ℝ) :
    moves (xs ++ [x] ++ [y]) = moves (xs ++ [x]) ++ [y - x] := by
  induction xs with
  | nil => rfl
  | cons z xs ih =>
    cases xs with
    | nil => rfl
    | cons w xs => exact congrArg (_ :: ·) ih

theorem moves_neg (xs : List ℝ) : moves (xs.map (-·)) = (moves xs).map (-·) := by
  rw [moves, moves, ← List.map_tail, List.zipWith_map, List.map_zipWith]
  congr 1
  funext x y
  ring

theorem gains_nonneg (xs : List ℝ) : ∀ x ∈ gains xs, 0 ≤ x := by
  rw [gains, List.forall_mem_map]
  exact fun _ _ => le_max_right _ _

theorem losses_nonneg (xs : List ℝ) : ∀ x ∈ losses xs, 0 ≤ x := by
  rw [losses, List.forall_mem_map]
  exact fun _ _ => le_max_right _ _

theorem gains_concat (xs : List ℝ) (x y : ℝ) :
    gains (xs ++ [x] ++ [y]) = gains (xs ++ [x]) ++ [max (y - x) 0] := by
  rw [gains, moves_concat, List.map_append]
  rfl

theorem losses_concat (xs : List ℝ) (x y : ℝ) :
    losses (xs ++ [x] ++ [y]) = losses (xs ++ [x]) ++ [max (-(y - x)) 0] := by
  rw [losses, moves_concat, List.map_append]
  rfl

theorem gains_neg (xs : List ℝ) : gains (xs.map (-·)) = losses xs := by
  rw [gains, losses, moves_neg, List.map_map]
  rfl

theorem losses_neg (xs : List ℝ) : losses (xs.map (-·)) = gains xs := by
  rw [gains, losses, moves_neg, List.map_map]
  congr 1
  funext x
  simp

section

variable {period : Nat} {seen : List ℝ}

theorem wilder_gains_eq_zero_iff (hperiod : 2 ≤ period) (hfull : period ≤ (moves seen).length) :
    wilder period (gains seen) = 0 ↔ ∀ d ∈ moves seen, d ≤ 0 := by
  have hlength : period ≤ (gains seen).length := hfull.trans_eq (List.length_map _).symm
  rw [wilder_eq_zero_iff hperiod hlength (gains_nonneg seen), gains, List.forall_mem_map]
  exact forall₂_congr fun _ _ => max_eq_right_iff

theorem wilder_losses_eq_zero_iff (hperiod : 2 ≤ period) (hfull : period ≤ (moves seen).length) :
    wilder period (losses seen) = 0 ↔ ∀ d ∈ moves seen, 0 ≤ d := by
  have hlength : period ≤ (losses seen).length := hfull.trans_eq (List.length_map _).symm
  rw [wilder_eq_zero_iff hperiod hlength (losses_nonneg seen), losses, List.forall_mem_map]
  exact forall₂_congr fun _ _ => max_eq_right_iff.trans neg_nonpos

end

section

variable {gain loss : ℝ}

theorem strength_mem (hg : 0 ≤ gain) (hl : 0 ≤ loss) :
    0 ≤ strength gain loss ∧ strength gain loss ≤ 100 := by
  unfold strength
  split_ifs with h
  · norm_num
  · have hratio : 0 ≤ gain / loss := div_nonneg hg hl
    have hquotient : 100 / (1 + gain / loss) ≤ 100 := by
      rw [div_le_iff₀ (by linarith)]
      linarith
    have hpos : 0 ≤ 100 / (1 + gain / loss) := by positivity
    constructor <;> linarith

theorem strength_eq_hundred_iff (hg : 0 ≤ gain) (hl : 0 ≤ loss) :
    strength gain loss = 100 ↔ loss = 0 := by
  unfold strength
  split_ifs with h
  · exact iff_of_true rfl h
  · have hpos : 0 < 100 / (1 + gain / loss) := by positivity
    constructor
    · intro heq
      linarith
    · intro heq
      exact absurd heq h

theorem strength_eq_zero_iff (hg : 0 ≤ gain) (hl : 0 ≤ loss) :
    strength gain loss = 0 ↔ loss ≠ 0 ∧ gain = 0 := by
  unfold strength
  split_ifs with h
  · simp [h]
  · have hne : 1 + gain / loss ≠ 0 := by positivity
    rw [sub_eq_zero, eq_div_iff hne, and_iff_right h]
    constructor
    · intro heq
      have hratio : gain / loss = 0 := by linarith
      exact (div_eq_zero_iff.1 hratio).resolve_right h
    · rintro rfl
      simp

/-- Where there is something of both, gain and loss change places by turning the index over. -/
theorem strength_swap (hg : 0 < gain) (hl : 0 < loss) :
    strength loss gain = 100 - strength gain loss := by
  rw [strength, strength, if_neg hg.ne', if_neg hl.ne']
  field_simp
  ring

end

/-! ## The state -/

namespace StrengthState

/-- The sum of numbers as long as there are too few, and then their average. -/
noncomputable def accumulated (n : Nat) (xs : List ℝ) : ℝ :=
  if xs.length < n then xs.sum else wilder n xs

/-- A number goes into the sum, the last one of the first `n` turns it into the average, and every
further one goes into that. -/
theorem accumulated_concat (n : Nat) (xs : List ℝ) (x : ℝ) :
    accumulated n (xs ++ [x]) =
      if xs.length < n then
        if xs.length + 1 < n then accumulated n xs + x else (accumulated n xs + x) / n
      else (accumulated n xs * (n - 1) + x) / n := by
  have hlength : (xs ++ [x]).length = xs.length + 1 := List.length_append
  have hsum : (xs ++ [x]).sum = xs.sum + x := by rw [List.sum_append, List.sum_singleton]
  rw [accumulated, accumulated, hlength]
  by_cases hmore : xs.length + 1 < n
  · have hroom : xs.length < n := by omega
    rw [if_pos hmore, if_pos hroom, if_pos hroom, if_pos hmore, hsum]
  rw [if_neg hmore]
  by_cases hroom : xs.length < n
  · rw [if_pos hroom, if_pos hroom, if_neg hmore, wilder_of_length_eq (by omega), hsum]
  · rw [if_neg hroom, if_neg hroom, wilder_concat (not_lt.1 hroom)]

/-- The state after some numbers. -/
structure Tracks (s : StrengthState Exact) (n : Nat) (seen : List ℝ) : Prop where
  period : s.period = n
  before : s.before = seen.getLast?.map .fin
  changes : s.changes = min (moves seen).length n
  gain : s.gain = .fin (accumulated n (gains seen))
  loss : s.loss = .fin (accumulated n (losses seen))

/-- What is shown of some numbers. -/
noncomputable def shown (n : Nat) (seen : List ℝ) : Exact :=
  if (moves seen).length < n then .nan else .fin (wilderIndex n seen)

theorem tracks_fresh {n : Nat} (hn : 1 ≤ n) : (fresh n : StrengthState Exact).Tracks n [] := by
  have hzero : (0 : Exact) = .fin (accumulated n []) := by
    rw [accumulated, List.length_nil, if_pos (by omega), Exact.numeral_eq, Nat.cast_zero,
      List.sum_nil]
  exact ⟨rfl, rfl, (Nat.zero_min n).symm, hzero, hzero⟩

/-- The index of two averages. -/
theorem index_fin {s : StrengthState Exact} {gain loss : ℝ} (hg : 0 ≤ gain) (hl : 0 ≤ loss)
    (hgain : s.gain = .fin gain) (hloss : s.loss = .fin loss) :
    s.index = .fin (strength gain loss) := by
  rw [index, hgain, hloss, Exact.numeral_eq, Nat.cast_zero, strength]
  simp only [Exact.fin_beq, Exact.numeral_eq]
  split_ifs with h
  · rfl
  · have hne : 1 + gain / loss ≠ 0 := by positivity
    rw [Exact.fin_div _ h, Nat.cast_one, Exact.fin_add, Exact.fin_div _ hne, Exact.fin_sub]
    rfl

variable {s : StrengthState Exact} {n : Nat} {seen : List ℝ}

/-- The index of a state that has seen enough. -/
theorem Tracks.index (h : s.Tracks n seen) (hn : 1 ≤ n) (hfull : n ≤ (moves seen).length) :
    s.index = shown n seen := by
  have hgains : (gains seen).length = (moves seen).length := List.length_map _
  have hlosses : (losses seen).length = (moves seen).length := List.length_map _
  have hgain := h.gain
  have hloss := h.loss
  rw [accumulated, if_neg (by omega)] at hgain hloss
  rw [shown, if_neg (by omega)]
  exact index_fin (wilder_nonneg hn (gains_nonneg seen)) (wilder_nonneg hn (losses_nonneg seen))
    hgain hloss

/-- **A move** goes into the sums or the averages, and the index is shown once these are averages. -/
theorem move_fin {gs ls : List ℝ} (hn : 1 ≤ n) (hlength : ls.length = gs.length)
    (hperiod : s.period = n) (hchanges : s.changes = min gs.length n)
    (hgain : s.gain = .fin (accumulated n gs)) (hloss : s.loss = .fin (accumulated n ls)) (x : ℝ) :
    let moved : StrengthState Exact := ⟨n, s.before, min (gs.length + 1) n,
      .fin (accumulated n (gs ++ [max x 0])), .fin (accumulated n (ls ++ [max (-x) 0]))⟩
    s.move (.fin x) = (if gs.length + 1 < n then Exact.nan else moved.index, moved) := by
  have hup : Arith.max (Exact.fin x) 0 = .fin (max x 0) := by
    rw [Exact.numeral_eq, Nat.cast_zero, Exact.max_fin]
  have hdown : Arith.max (-Exact.fin x) 0 = .fin (max (-x) 0) := by
    rw [Exact.numeral_eq, Nat.cast_zero, Exact.neg_fin, Exact.max_fin]
  have hne : (n : ℝ) ≠ 0 := by
    rw [Nat.cast_ne_zero]
    omega
  have hstep (a b : ℝ) : (Exact.fin a * (.fin n - 1) + .fin b) / .fin n =
      .fin ((a * (n - 1) + b) / n) := by
    rw [Exact.numeral_eq, Nat.cast_one, Exact.fin_sub, Exact.fin_mul, Exact.fin_add,
      Exact.fin_div _ hne]
  intro moved
  rw [StrengthState.move]
  simp only [hup, hdown, hperiod, hchanges, hgain, hloss, Exact.fin_add, Exact.ofCount_eq, hstep,
    Exact.fin_div _ hne, moved, accumulated_concat, hlength]
  by_cases hroom : gs.length < n
  · rw [Nat.min_eq_left hroom.le, Nat.min_eq_left hroom]
    simp only [if_pos hroom]
    split_ifs <;> rfl
  · rw [Nat.min_eq_right (by omega), Nat.min_eq_right (by omega)]
    simp only [lt_irrefl, if_neg hroom, if_neg (by omega : ¬ gs.length + 1 < n), ite_false]

/-- A move after some numbers. -/
theorem Tracks.move (h : s.Tracks n seen) (hn : 1 ≤ n) {older : List ℝ} {v x : ℝ}
    (hseen : seen = older ++ [v]) :
    let moved := ({ s with before := some (.fin x) } : StrengthState Exact).move (.fin (x - v))
    moved.1 = shown n (seen ++ [x]) ∧ moved.2.Tracks n (seen ++ [x]) := by
  intro moved
  subst hseen
  have hgainsLength : (gains (older ++ [v])).length = (moves (older ++ [v])).length :=
    List.length_map _
  have hlossesLength : (losses (older ++ [v])).length = (gains (older ++ [v])).length := by
    rw [losses, gains, List.length_map, List.length_map]
  have hlength : (moves (older ++ [v] ++ [x])).length = (gains (older ++ [v])).length + 1 := by
    rw [moves_concat, List.length_append, hgainsLength, List.length_singleton]
  have hmoved : moved = _ := move_fin (s := { s with before := some (.fin x) }) hn hlossesLength
    h.period (hgainsLength ▸ h.changes) h.gain h.loss (x - v)
  have htracks : moved.2.Tracks n (older ++ [v] ++ [x]) := by
    rw [hmoved]
    refine ⟨rfl, ?_, congrArg (min · n) hlength.symm, ?_, ?_⟩
    · rw [List.getLast?_concat, Option.map_some]
    · rw [gains_concat]
    · rw [losses_concat]
  refine ⟨?_, htracks⟩
  by_cases hshort : (moves (older ++ [v] ++ [x])).length < n
  · rw [shown, if_pos hshort, hmoved]
    exact if_pos (by omega)
  · rw [← htracks.index hn (not_lt.1 hshort), hmoved]
    exact if_neg (by omega)

/-- **A number** is taken in. -/
theorem Tracks.next (h : s.Tracks n seen) (hn : 1 ≤ n) (x : ℝ) :
    (s.next (.fin x)).1 = shown n (seen ++ [x]) ∧ (s.next (.fin x)).2.Tracks n (seen ++ [x]) := by
  have hguard : ¬ (s.period = 0 ∨ Arith.isNaN (Exact.fin x) = true) := by
    rw [h.period, Exact.isNaN_fin, or_iff_left Bool.false_ne_true]
    omega
  rw [StrengthState.next, if_neg hguard, h.before]
  rcases List.eq_nil_or_concat seen with rfl | ⟨older, v, hseen⟩
  case inl =>
    -- the first number has nothing to move from
    refine ⟨(if_pos hn).symm, h.period, rfl, ?_, h.gain, h.loss⟩
    simpa using h.changes
  case inr =>
    rw [List.concat_eq_append] at hseen
    rw [hseen, List.getLast?_concat, ← hseen]
    simp only [Option.map_some, Exact.fin_sub]
    exact h.move hn hseen

/-- **Numbers with gaps** are taken in, the gaps being passed over. -/
theorem Tracks.feed (h : s.Tracks n seen) (hn : 1 ≤ n) (xs : List (Option ℝ)) :
    (feed s (Exact.series xs)).2.Tracks n (seen ++ xs.reduceOption) := by
  induction xs generalizing s seen with
  | nil => simpa [Exact.series, BarScript.feed] using h
  | cons x xs ih =>
    cases x with
    | none =>
      have hfeed : (BarScript.feed s (Exact.series (none :: xs))).2 =
          (BarScript.feed (s.next .nan).2 (Exact.series xs)).2 := rfl
      rw [hfeed, s.next_gap rfl, List.reduceOption_cons_of_none]
      exact ih h
    | some x =>
      have hnext := ih (h.next hn x).2
      rwa [List.append_assoc, List.singleton_append] at hnext

end StrengthState

/-- The numbers of a series up to a position. -/
def seenAt (xs : List (Option ℝ)) (i : Nat) : List ℝ := (xs.take (i + 1)).reduceOption

theorem seenAt_of_some {xs : List (Option ℝ)} {i : Nat} {x : ℝ} (hx : xs[i]? = some (some x)) :
    seenAt xs i = (xs.take i).reduceOption ++ [x] := by
  rw [seenAt, List.take_add_one, hx, List.reduceOption_append]
  rfl

theorem seenAt_neg (xs : List (Option ℝ)) (i : Nat) :
    seenAt (xs.map (·.map (-·))) i = (seenAt xs i).map (-·) := by
  rw [seenAt, seenAt, ← List.map_take, List.reduceOption_map]

section

variable {n : Nat} {xs : List (Option ℝ)} {i : Nat}

open StrengthState

/-- The output at a position of numbers with gaps. -/
theorem rsi_getElem? (hn : 1 ≤ n) {x : Option ℝ} (hx : xs[i]? = some x) :
    (rsi (Exact.series xs) n)[i]? =
      some (if x = none then Exact.nan else shown n (seenAt xs i)) := by
  have hinput : (Exact.series xs)[i]? = some (.ofOption x) := by
    rw [Exact.series_getElem?, hx, Option.map_some]
  have hbefore := (tracks_fresh hn).feed hn (xs.take i)
  rw [List.nil_append, Exact.series, List.map_take] at hbefore
  rw [rsi, replay_getElem? _ hinput]
  cases x with
  | none =>
    rw [if_pos rfl]
    exact congrArg (some ·.1) (StrengthState.next_gap _ (x := Exact.nan) rfl)
  | some x =>
    rw [if_neg nofun, seenAt_of_some hx]
    exact congrArg some (hbefore.next hn x).1

/-- A number is shown where enough of them have been seen. -/
theorem rsi_fin (hn : 1 ≤ n) {r : ℝ} (h : (rsi (Exact.series xs) n)[i]? = some (.fin r)) :
    ∃ x, xs[i]? = some (some x) ∧ n ≤ (moves (seenAt xs i)).length ∧
      r = wilderIndex n (seenAt xs i) := by
  have hi : i < xs.length := by
    obtain ⟨hi, -⟩ := List.getElem?_eq_some_iff.1 h
    simpa [rsi] using hi
  have hx : xs[i]? = some xs[i] := List.getElem?_eq_getElem hi
  rw [rsi_getElem? hn hx, Option.some_inj] at h
  cases hvalue : xs[i] with
  | none => simp [hvalue] at h
  | some x =>
    rw [hvalue, if_neg nofun, shown] at h
    split_ifs at h with hshort
    exact ⟨x, hvalue ▸ hx, not_lt.1 hshort, (Exact.fin.inj h).symm⟩

/-- Turning all numbers over turns the index over, if they went both ways. -/
theorem rsi_neg (hn : 2 ≤ n) {r : ℝ} (h : (rsi (Exact.series xs) n)[i]? = some (.fin r))
    (hup : ∃ d ∈ moves (seenAt xs i), 0 < d) (hdown : ∃ d ∈ moves (seenAt xs i), d < 0) :
    (rsi (Exact.series (xs.map (·.map (-·)))) n)[i]? = some (.fin (100 - r)) := by
  have hone : 1 ≤ n := by omega
  obtain ⟨x, hx, hfull, rfl⟩ := rsi_fin hone h
  have hx' : (xs.map (·.map (-·)))[i]? = some (some (-x)) := by
    rw [List.getElem?_map, hx, Option.map_some, Option.map_some]
  have hgain : 0 < wilder n (gains (seenAt xs i)) := by
    refine (wilder_nonneg hone (gains_nonneg _)).lt_of_ne' fun hzero => ?_
    obtain ⟨d, hd, hpos⟩ := hup
    exact absurd ((wilder_gains_eq_zero_iff hn hfull).1 hzero d hd) (not_le.2 hpos)
  have hloss : 0 < wilder n (losses (seenAt xs i)) := by
    refine (wilder_nonneg hone (losses_nonneg _)).lt_of_ne' fun hzero => ?_
    obtain ⟨d, hd, hneg⟩ := hdown
    exact absurd ((wilder_losses_eq_zero_iff hn hfull).1 hzero d hd) (not_le.2 hneg)
  rw [rsi_getElem? hone hx', if_neg nofun, seenAt_neg, shown, moves_neg, List.length_map,
    if_neg (by omega), wilderIndex, gains_neg, losses_neg, strength_swap hgain hloss, wilderIndex]

end

/-- **The relative strength index is Wilder's.** In exact arithmetic, for all numbers with gaps and
every period: the output at a gap is unavailable; at a number with `k` numbers before it, it is
unavailable if `k < period`, and otherwise the index of the averages of the gains and the losses from
number to number, `100` if nothing was lost. So every output that is available lies between 0
and 100. From a period of two on it is 100 if and only if nothing went down so far, it is 0 if and
only if something went down and nothing up, and where there was both, the numbers turned over have
the index turned over. -/
theorem rsi_wilder {period : Nat} (hperiod : 1 ≤ period) (xs : List (Option ℝ)) :
    (rsi (Exact.series xs) period).length = xs.length ∧
      let ys := rsi (Exact.series xs) period
      (∀ i : Nat, xs[i]? = some none → ys[i]? = some Exact.nan) ∧
      (∀ (i : Nat) x k, xs[i]? = some (some x) → (xs.take i).reduceOption.length = k →
        ys[i]? =
          some (if k < period then Exact.nan else .fin (wilderIndex period (seenAt xs i)))) ∧
      (∀ y ∈ ys, y = Exact.nan ∨ ∃ r, y = Exact.fin r ∧ 0 ≤ r ∧ r ≤ 100) ∧
      (2 ≤ period → ∀ (i : Nat) r, ys[i]? = some (.fin r) →
        (r = 100 ↔ ∀ d ∈ moves (seenAt xs i), 0 ≤ d) ∧
        (r = 0 ↔ (∃ d ∈ moves (seenAt xs i), d < 0) ∧ ∀ d ∈ moves (seenAt xs i), d ≤ 0) ∧
        ((∃ d ∈ moves (seenAt xs i), 0 < d) → (∃ d ∈ moves (seenAt xs i), d < 0) →
          (rsi (Exact.series (xs.map (·.map (-·)))) period)[i]? = some (.fin (100 - r)))) := by
  have hlength : (rsi (Exact.series xs) period).length = xs.length := by simp [rsi]
  refine ⟨hlength, ?_⟩
  intro ys
  refine ⟨fun i hx => ?_, fun i x k hx hk => ?_, fun y hy => ?_, fun htwo i r hr => ?_⟩
  · rw [rsi_getElem? hperiod hx, if_pos rfl]
  · have hmoves : (moves (seenAt xs i)).length = k := by
      rw [length_moves, seenAt_of_some hx, List.length_append, hk, List.length_singleton,
        Nat.add_sub_cancel]
    rw [rsi_getElem? hperiod hx, if_neg nofun, StrengthState.shown, hmoves]
  · obtain ⟨i, hi, rfl⟩ := List.mem_iff_getElem.1 hy
    have hx : xs[i]? = some (xs.get ⟨i, hlength ▸ hi⟩) := List.getElem?_eq_getElem _
    have hvalue := rsi_getElem? hperiod hx
    rw [List.getElem?_eq_getElem hi, Option.some_inj, StrengthState.shown] at hvalue
    split_ifs at hvalue
    · exact .inl hvalue
    · exact .inl hvalue
    · exact .inr ⟨_, hvalue, strength_mem (wilder_nonneg hperiod (gains_nonneg _))
        (wilder_nonneg hperiod (losses_nonneg _))⟩
  · obtain ⟨x, hx, hfull, rfl⟩ := rsi_fin hperiod hr
    have hgain := wilder_nonneg hperiod (gains_nonneg (seenAt xs i))
    have hloss := wilder_nonneg hperiod (losses_nonneg (seenAt xs i))
    refine ⟨?_, ?_, rsi_neg htwo hr⟩
    · rw [wilderIndex, strength_eq_hundred_iff hgain hloss, wilder_losses_eq_zero_iff htwo hfull]
    · rw [wilderIndex, strength_eq_zero_iff hgain hloss, Ne, wilder_losses_eq_zero_iff htwo hfull,
        wilder_gains_eq_zero_iff htwo hfull]
      simp

/-- Over `1`, a gap, `3`, `2` and `5` the average gain is `1` and then `2`, the average loss `1 / 2`
and then `1 / 4`. -/
theorem rsi_wilder_two :
    let xs : List (Option ℝ) := [some 1, none, some 3, some 2, some 5]
    let ys := rsi (Exact.series xs) 2
    ys[1]? = some Exact.nan ∧ ys[2]? = some Exact.nan ∧ ys[4]? = some (Exact.fin (800 / 9)) ∧
      (rsi (Exact.series (xs.map (·.map (-·)))) 2)[4]? = some (Exact.fin (100 / 9)) := by
  intro xs ys
  obtain ⟨-, hgap, hvalue, -, hsymmetric⟩ := rsi_wilder (by decide : 1 ≤ 2) xs
  have hseen : seenAt xs 4 = [1, 3, 2, 5] := rfl
  have hmoves : moves (seenAt xs 4) = [2, -1, 3] := by
    rw [hseen]
    norm_num [moves]
  have hgains : gains (seenAt xs 4) = [2, 0, 3] := by
    rw [gains, hmoves]
    norm_num
  have hlosses : losses (seenAt xs 4) = [0, 1, 0] := by
    rw [losses, hmoves]
    norm_num
  have hfour : ys[4]? = some (Exact.fin (800 / 9)) := by
    refine (hvalue 4 5 3 rfl rfl).trans ?_
    rw [if_neg (by decide), wilderIndex, hgains, hlosses]
    norm_num [wilder, strength]
  refine ⟨hgap 1 rfl, hvalue 2 3 1 rfl rfl, hfour, ?_⟩
  have hturned := (hsymmetric le_rfl 4 _ hfour).2.2 ⟨2, by simp [hmoves], by norm_num⟩
    ⟨-1, by simp [hmoves], by norm_num⟩
  rw [hturned]
  norm_num

end BarScript
