import Mathlib
import BarScript.Proofs.RunningMean
import BarScript.Proofs.WarmUp

/-!
# The line of least squares

Among all lines through the points of a window the one that `windowLine` reads leaves the least sum
of squares (`Fits`), and it is the only one that does. The sums of `lineSums` solve the normal
equations, whose determinant is not zero for two points or more; the normal equations make the mixed
terms vanish when another line is compared. A line that goes through all points therefore is the
line that is read, at the newest bar, before it and after it (`linreg_least_squares`).
-/

namespace BarScript

/-- The points of a window, whose abscissas count from its oldest value. -/
def points (w : List ℝ) : List (ℝ × ℝ) := w.zipIdx.map fun (y, j) => ((j : ℝ), y)

/-- How far a point lies above the line `a + b * x`. -/
def residual (a b : ℝ) (p : ℝ × ℝ) : ℝ := p.2 - (a + b * p.1)

/-- The sum of the squares that a line leaves. -/
def squares (a b : ℝ) (ps : List (ℝ × ℝ)) : ℝ := (ps.map fun p => residual a b p ^ 2).sum

/-- The line `a + b * x` leaves the least squares, and every other line leaves more. -/
structure Fits (a b : ℝ) (ps : List (ℝ × ℝ)) : Prop where
  least : ∀ a' b', squares a b ps ≤ squares a' b' ps
  only : ∀ a' b', squares a' b' ps = squares a b ps → a' = a ∧ b' = b

/-! ## The normal equations -/

/-- The residuals of a line are balanced, and so are their moments. -/
structure Balanced (a b : ℝ) (ps : List (ℝ × ℝ)) : Prop where
  level : (ps.map (residual a b)).sum = 0
  moment : (ps.map fun p => p.1 * residual a b p).sum = 0

/-- The distances of two lines at the abscissas of the points, squared. -/
theorem squares_eq (a b a' b' : ℝ) (ps : List (ℝ × ℝ)) :
    squares a' b' ps = squares a b ps +
      2 * ((a - a') * (ps.map (residual a b)).sum +
        (b - b') * (ps.map fun p => p.1 * residual a b p).sum) +
      (ps.map fun p => (a - a' + (b - b') * p.1) ^ 2).sum := by
  induction ps with
  | nil => simp [squares]
  | cons p ps ih =>
    simp only [squares, List.map_cons, List.sum_cons] at ih ⊢
    rw [ih]
    simp only [residual]
    ring

theorem Balanced.squares_eq {a b : ℝ} {ps : List (ℝ × ℝ)} (h : Balanced a b ps) (a' b' : ℝ) :
    squares a' b' ps =
      squares a b ps + (ps.map fun p => (a - a' + (b - b') * p.1) ^ 2).sum := by
  rw [BarScript.squares_eq a b a' b', h.level, h.moment]
  ring

/-- A sum of squares vanishes only with every square. -/
theorem eq_zero_of_sum_sq {β : Type} {f : β → ℝ} {xs : List β}
    (h : (xs.map fun x => f x ^ 2).sum = 0) : ∀ x ∈ xs, f x = 0 := by
  induction xs with
  | nil => exact nofun
  | cons x xs ih =>
    rw [List.map_cons, List.sum_cons] at h
    have hrest : 0 ≤ (xs.map fun x => f x ^ 2).sum :=
      List.sum_nonneg (List.forall_mem_map.2 fun x _ => sq_nonneg (f x))
    obtain ⟨hx, hxs⟩ := (add_eq_zero_iff_of_nonneg (sq_nonneg (f x)) hrest).1 h
    exact List.forall_mem_cons.2 ⟨pow_eq_zero_iff two_ne_zero |>.1 hx, ih hxs⟩

/-- Two points at different abscissas leave no choice. -/
theorem Balanced.fits {a b : ℝ} {ps : List (ℝ × ℝ)} (h : Balanced a b ps)
    {p q : ℝ × ℝ} (hp : p ∈ ps) (hq : q ∈ ps) (hne : p.1 ≠ q.1) : Fits a b ps where
  least a' b' := by
    rw [h.squares_eq a' b']
    exact le_add_of_nonneg_right
      (List.sum_nonneg (List.forall_mem_map.2 fun p _ => sq_nonneg (a - a' + (b - b') * p.1)))
  only a' b' heq := by
    rw [h.squares_eq a' b', add_eq_left] at heq
    have hzero := eq_zero_of_sum_sq heq
    have hslope : (b - b') * (p.1 - q.1) = 0 := by
      rw [mul_sub]
      linarith [hzero p hp, hzero q hq]
    have hb : b - b' = 0 := (mul_eq_zero.1 hslope).resolve_right (sub_ne_zero.2 hne)
    have ha := hzero p hp
    rw [hb] at ha
    exact ⟨by linarith, by linarith⟩

/-! ## The line that is read -/

/-- The sums over some points. -/
noncomputable def pointSums (ps : List (ℝ × ℝ)) : LineSums ℝ where
  x := (ps.map fun p => p.1).sum
  y := (ps.map fun p => p.2).sum
  xy := (ps.map fun p => p.1 * p.2).sum
  xx := (ps.map fun p => p.1 * p.1).sum

noncomputable def LineSums.determinant (s : LineSums ℝ) (n : ℝ) : ℝ := n * s.xx - s.x * s.x

noncomputable def LineSums.slope (s : LineSums ℝ) (n : ℝ) : ℝ :=
  (n * s.xy - s.x * s.y) / s.determinant n

noncomputable def LineSums.intercept (s : LineSums ℝ) (n : ℝ) : ℝ := (s.y - s.slope n * s.x) / n

theorem sum_residual (a b : ℝ) (ps : List (ℝ × ℝ)) :
    (ps.map (residual a b)).sum = (pointSums ps).y - (ps.length * a + b * (pointSums ps).x) := by
  induction ps with
  | nil => simp [pointSums]
  | cons p ps ih =>
    simp only [pointSums, List.map_cons, List.sum_cons, List.length_cons] at ih ⊢
    rw [ih]
    push_cast [residual]
    ring

theorem sum_moment (a b : ℝ) (ps : List (ℝ × ℝ)) :
    (ps.map fun p => p.1 * residual a b p).sum =
      (pointSums ps).xy - (a * (pointSums ps).x + b * (pointSums ps).xx) := by
  induction ps with
  | nil => simp [pointSums]
  | cons p ps ih =>
    simp only [pointSums, List.map_cons, List.sum_cons] at ih ⊢
    rw [ih]
    simp only [residual]
    ring

/-- Cramer's rule for the normal equations. -/
theorem balanced_line {ps : List (ℝ × ℝ)} (hlength : (ps.length : ℝ) ≠ 0)
    (hdet : (pointSums ps).determinant ps.length ≠ 0) :
    Balanced ((pointSums ps).intercept ps.length) ((pointSums ps).slope ps.length) ps := by
  have hslope : (pointSums ps).slope ps.length * (pointSums ps).determinant ps.length =
      ps.length * (pointSums ps).xy - (pointSums ps).x * (pointSums ps).y :=
    div_mul_cancel₀ _ hdet
  have hintercept : (pointSums ps).intercept ps.length * ps.length =
      (pointSums ps).y - (pointSums ps).slope ps.length * (pointSums ps).x :=
    div_mul_cancel₀ _ hlength
  constructor
  · rw [sum_residual]
    linarith
  · rw [sum_moment]
    refine (mul_eq_zero.1 ?_).resolve_left hlength
    rw [LineSums.determinant] at hslope
    linear_combination -(pointSums ps).x * hintercept - hslope

section

variable {w : List ℝ}

@[simp] theorem length_points : (points w).length = w.length := by simp [points]

theorem mem_points {p : ℝ × ℝ} :
    p ∈ points w ↔ ∃ j : Nat, (j : ℝ) = p.1 ∧ w[j]? = some p.2 := by
  rw [points, List.mem_map]
  constructor
  · rintro ⟨⟨y, j⟩, hj, rfl⟩
    exact ⟨j, rfl, List.mem_zipIdx_iff_getElem?.1 hj⟩
  · rintro ⟨j, hj, hy⟩
    exact ⟨(p.2, j), List.mem_zipIdx_iff_getElem?.2 hy, Prod.ext hj rfl⟩

/-- Running sums over values whose abscissas count from `n`. -/
theorem lineSums_points_from (w : List ℝ) (n : Nat) (x y xy xx : ℝ) :
    ((w.map Exact.fin).zipIdx n).foldl (fun (s : LineSums Exact) (y, j) =>
      let x : Exact := Arith.ofCount j
      ⟨s.x + x, s.y + y, s.xy + x * y, s.xx + x * x⟩) ⟨.fin x, .fin y, .fin xy, .fin xx⟩ =
    let sums := pointSums ((w.zipIdx n).map fun (y, j) => ((j : ℝ), y))
    ⟨.fin (x + sums.x), .fin (y + sums.y), .fin (xy + sums.xy), .fin (xx + sums.xx)⟩ := by
  induction w generalizing n x y xy xx with
  | nil => simp [pointSums]
  | cons a w ih =>
    have hrest := ih (n + 1) (x + n) (y + a) (xy + n * a) (xx + n * n)
    simp only [pointSums, List.map_map, add_assoc] at hrest
    rw [List.map_cons, List.zipIdx_cons, List.foldl_cons, List.zipIdx_cons]
    simp only [pointSums, List.map_cons, List.sum_cons, List.map_map]
    rw [← hrest]
    simp only [Exact.ofCount_eq, Exact.fin_add, Exact.fin_mul]

/-- The sums of a window are the sums over its points. -/
theorem lineSums_points (w : List ℝ) : lineSums (w.map Exact.fin) =
    ⟨.fin (pointSums (points w)).x, .fin (pointSums (points w)).y,
      .fin (pointSums (points w)).xy, .fin (pointSums (points w)).xx⟩ := by
  have hsums := lineSums_points_from w 0 0 0 0 0
  simp only [zero_add] at hsums
  rw [lineSums, points, ← hsums, Exact.numeral_eq, Nat.cast_zero]

theorem determinant_points (hw : 2 ≤ w.length) :
    (pointSums (points w)).determinant w.length ≠ 0 := by
  obtain ⟨y, xy, h⟩ := lineSums_finite w
  rw [lineSums_points, abscissas] at h
  obtain ⟨hx, -, -, hxx⟩ := LineSums.mk.inj h
  rw [LineSums.determinant, Exact.fin.inj hx, Exact.fin.inj hxx]
  exact determinant_ne_zero hw

/-- Two points or more have one line of least squares. -/
theorem fits_points (hw : 2 ≤ w.length) :
    Fits ((pointSums (points w)).intercept w.length) ((pointSums (points w)).slope w.length)
      (points w) := by
  have hlength : ((points w).length : ℝ) ≠ 0 := by
    rw [length_points, Nat.cast_ne_zero]
    omega
  have hbalanced := balanced_line hlength (by rw [length_points]; exact determinant_points hw)
  rw [length_points] at hbalanced
  have hpoint (j : Nat) (hj : j < w.length) : ((j : ℝ), w[j]) ∈ points w :=
    mem_points.2 ⟨j, rfl, List.getElem?_eq_getElem hj⟩
  have hfirst := hpoint 0 (by omega)
  have hsecond := hpoint 1 (by omega)
  exact hbalanced.fits hfirst hsecond (by norm_num)

/-- `windowLine` reads that line. -/
theorem windowLine_eq (hw : 2 ≤ w.length) (offset : Int) :
    windowLine (w.map Exact.fin) offset =
      .fin ((pointSums (points w)).intercept w.length +
        (pointSums (points w)).slope w.length * (w.length - 1 - offset)) := by
  have hdet := determinant_points hw
  have hlength : (w.length : ℝ) ≠ 0 := by
    rw [Nat.cast_ne_zero]
    omega
  rw [windowLine, lineSums_points]
  · rw [LineSums.determinant] at hdet
    simp only [List.length_map, Exact.ofCount_eq, Exact.ofInt_eq, Exact.fin_mul, Exact.fin_sub,
      Exact.numeral_eq, Nat.cast_one, Exact.fin_div _ hdet, Exact.fin_div _ hlength, Exact.fin_add]
    rfl
  · rintro v h
    have hone := congrArg List.length h
    rw [List.length_map, List.length_singleton] at hone
    omega

/-- A line through all points is the line of least squares. -/
theorem Fits.eq_of_line {a b c m : ℝ} {ps : List (ℝ × ℝ)} (h : Fits a b ps)
    (hline : ∀ p ∈ ps, p.2 = c + m * p.1) : c = a ∧ m = b := by
  have hzero : squares c m ps = 0 := by
    refine List.sum_eq_zero (List.forall_mem_map.2 fun p hp => ?_)
    rw [residual, hline p hp]
    ring
  have hnonneg : 0 ≤ squares a b ps :=
    List.sum_nonneg (List.forall_mem_map.2 fun p _ => sq_nonneg (residual a b p))
  exact h.only c m (le_antisymm (hzero ▸ hnonneg) (h.least c m))

theorem windowLine_of_line (hw : 2 ≤ w.length) {c m : ℝ}
    (hline : ∀ (j : Nat) (y : ℝ), w[j]? = some y → y = c + m * j) (offset : Int) :
    windowLine (w.map Exact.fin) offset = .fin (c + m * (w.length - 1 - offset)) := by
  have hpoints : ∀ p ∈ points w, p.2 = c + m * p.1 := by
    intro p hp
    obtain ⟨j, hj, hy⟩ := mem_points.1 hp
    rw [← hj]
    exact hline j p.2 hy
  obtain ⟨hc, hm⟩ := (fits_points hw).eq_of_line hpoints
  rw [windowLine_eq hw, hc, hm]

end

/-! ## At the positions of a series -/

/-- The numbers of a series that lies on a line. -/
noncomputable def onLine (c m : ℝ) (size : Nat) : List ℝ :=
  (List.range size).map fun j : Nat => c + m * (j : ℝ)

theorem onLine_getElem? {c m : ℝ} {size j : Nat} {y : ℝ} (h : (onLine c m size)[j]? = some y) :
    y = c + m * j := (eq_of_map_range h).symm

theorem take_onLine {c m : ℝ} {size k : Nat} (h : k ≤ size) :
    (onLine c m size).take k = onLine c m k := by
  rw [onLine, ← List.map_take, List.take_range, Nat.min_eq_left h, onLine]

@[simp] theorem length_onLine (c m : ℝ) (size : Nat) : (onLine c m size).length = size := by
  rw [onLine, List.length_map, List.length_range]

/-- The line of a window of a series on a line goes on as the series does. -/
theorem windowLine_onLine (c m : ℝ) {n i : Nat} (hn : 2 ≤ n) (hfull : n ≤ i + 1) (offset : Int) :
    windowLine ((newest n (onLine c m (i + 1))).map Exact.fin) offset =
      .fin (c + m * (i - offset)) := by
  have hlength : (newest n (onLine c m (i + 1))).length = n :=
    length_newest_of_le (by rwa [length_onLine])
  have hline : ∀ (j : Nat) (y : ℝ), (newest n (onLine c m (i + 1)))[j]? = some y →
      y = c + m * (i + 1 - n) + m * j := by
    intro j y hy
    rw [newest, length_onLine, List.getElem?_drop] at hy
    rw [onLine_getElem? hy, Nat.cast_add, Nat.cast_sub hfull]
    push_cast
    ring
  rw [windowLine_of_line (hlength.symm ▸ hn) hline, hlength]
  congr 1
  ring

theorem newest_one {β : Type} {xs : List β} {i : Nat} (hi : i < xs.length) :
    newest 1 (xs.take (i + 1)) = [xs[i]] := by
  have hlength : (xs.take i).length = i := List.length_take_of_le (Nat.le_of_lt hi)
  rw [List.take_add_one, List.getElem?_eq_getElem hi, newest, Option.toList_some]
  exact List.drop_left' (by rw [List.length_append, hlength]; rfl)

/-- Where a window is complete, the result is that of the window. -/
theorem linreg_getElem? {xs : List Exact} {n i : Nat} (hn : 1 ≤ n) (hfull : n ≤ i + 1)
    (hi : i < xs.length) (hnone : .nan ∉ newest n (xs.take (i + 1))) (offset : Int) :
    (linreg xs n offset)[i]? = some (windowLine (newest n (xs.take (i + 1))) offset) := by
  have hgap : ¬ (newest n (xs.take (i + 1))).any Arith.isNaN = true := by
    simpa [List.any_eq_true, Exact.isNaN_iff] using hnone
  have hlength := length_newest_take xs hi hfull
  rw [linreg, windowed_getElem? xs _ hn hi, if_neg (not_or.2 ⟨by omega, hgap⟩)]

/-- **Linear regression reads the line of least squares.** Two numbers or more determine one line
that leaves the least squares, and the result lies on it; a series on a line is continued by any
number of bars in both directions; and at the positions of a series the results are those of its
windows. -/
theorem linreg_least_squares {n : Nat} (hn : 1 ≤ n) (offset : Int) :
    (∀ w : List ℝ, w.length = n → 2 ≤ n →
      (∃ d, d ≠ 0 ∧ Arith.ofCount n * (lineSums (w.map .fin)).xx -
        (lineSums (w.map .fin)).x * (lineSums (w.map .fin)).x = Exact.fin d) ∧
      ∃ a b, Fits a b (points w) ∧ ∀ k : Int,
        windowLine (w.map .fin) k = Exact.fin (a + b * (n - 1 - k))) ∧
    (∀ (c m : ℝ) (size i : Nat), 2 ≤ n → n ≤ i + 1 → i < size →
      (linreg ((onLine c m size).map .fin) n offset)[i]? =
        some (Exact.fin (c + m * (i - offset)))) ∧
    (∀ (xs : List Exact) (i : Nat), n ≤ i + 1 → i < xs.length →
      .nan ∉ newest n (xs.take (i + 1)) →
      (newest n (xs.take (i + 1))).length = n ∧
        (linreg xs n offset)[i]? = some (windowLine (newest n (xs.take (i + 1))) offset) ∧
        (n = 1 → (linreg xs n offset)[i]? = xs[i]?)) := by
  refine ⟨?_, ?_, ?_⟩
  · rintro w rfl hw
    refine ⟨⟨_, determinant_points hw, ?_⟩, _, _, fits_points hw, windowLine_eq hw⟩
    rw [lineSums_points, Exact.ofCount_eq, Exact.fin_mul, Exact.fin_mul, Exact.fin_sub]
    rfl
  · intro c m size i hn' hfull hi
    have hwindow : newest n (((onLine c m size).map .fin).take (i + 1)) =
        (newest n (onLine c m (i + 1))).map Exact.fin := by
      rw [← List.map_take, take_onLine (by omega), newest_map]
    rw [linreg_getElem? hn hfull (by simpa using hi) (by simp [hwindow]), hwindow,
      windowLine_onLine c m hn' hfull]
  · intro xs i hfull hi hnone
    have hvalue := linreg_getElem? hn hfull hi hnone offset
    refine ⟨length_newest_take xs hi hfull, hvalue, ?_⟩
    rintro rfl
    rw [hvalue, newest_one hi, List.getElem?_eq_getElem hi]
    rfl

/-- The numbers 1, 2 and 3 go on with 4. -/
theorem linreg_least_squares_forward : 1 ≤ 3 ∧ onLine 1 1 3 = [1, 2, 3] ∧
    (linreg ((onLine 1 1 3).map .fin) 3 (-1))[2]? = some (Exact.fin 4) := by
  obtain ⟨-, hline, -⟩ := linreg_least_squares (by decide : 1 ≤ 3) (-1)
  refine ⟨by decide, ?_, ?_⟩
  · simp [onLine, List.range_succ]
    norm_num
  · rw [hline 1 1 3 2 (by decide) (by decide) (by decide)]
    norm_num

end BarScript
