import Mathlib
import BarScript.Indicator.Extreme
import BarScript.Proofs.DoubleOrder
import BarScript.Proofs.RunningMean

/-!
# The order statistics of a window

The greatest and the least value of a trailing window are elements of it that no other element is
above or below, and the median is in the middle of the window in ascending order
(`order_statistics`). The extremes are searched from a fixed number, so that a window of nothing but
infinities may miss them: `highest_not_mem`.
-/

namespace BarScript

open Double

/-! ## Searching a list -/

/-- A choice between two numbers: the second one, if it is as far as the first one. -/
structure Picks (R : Float → Float → Prop) (pick : Float → Float → Float) : Prop where
  total : ∀ {a b}, Arith.isNaN a = false → Arith.isNaN b = false → R a b ∨ R b a
  trans : ∀ {a b c}, R a b → R b c → R a c
  second : ∀ {a b}, Arith.isNaN a = false → R a b → pick a b = b
  first : ∀ {a b}, Arith.isNaN a = false → ¬ R a b → pick a b = a

theorem picks_max : Picks (· ≤ ·) Arith.max where
  total := Double.le_total
  trans := Double.le_trans
  second ha h := by simp [Arith.max, ha, h]
  first ha h := by simp [Arith.max, ha, h]

theorem picks_min : Picks (fun a b => b ≤ a) Arith.min where
  total ha hb := Double.le_total hb ha
  trans h h' := Double.le_trans h' h
  second ha h := by simp [Arith.min, ha, h]
  first ha h := by simp [Arith.min, ha, h]

namespace Picks

variable {R : Float → Float → Prop} {pick : Float → Float → Float} {a b : Float}
  {w : List Float}

theorem refl (h : Picks R pick) (ha : Arith.isNaN a = false) : R a a :=
  (h.total ha ha).elim id id

/-- One choice. -/
theorem step (h : Picks R pick) (ha : Arith.isNaN a = false) (hb : Arith.isNaN b = false) :
    (pick a b = a ∨ pick a b = b) ∧ R a (pick a b) ∧ R b (pick a b) := by
  by_cases hab : R a b
  · rw [h.second ha hab]
    exact ⟨.inr rfl, hab, h.refl hb⟩
  · rw [h.first ha hab]
    exact ⟨.inl rfl, h.refl ha, (h.total ha hb).resolve_left hab⟩

/-- A search ends with a number that it has met, and that is as far as all of them. -/
theorem foldl (h : Picks R pick) (ha : Arith.isNaN a = false)
    (hw : ∀ x ∈ w, Arith.isNaN x = false) :
    w.foldl pick a ∈ a :: w ∧ ∀ x ∈ a :: w, R x (w.foldl pick a) := by
  induction w generalizing a with
  | nil => simpa using h.refl ha
  | cons b w ih =>
    obtain ⟨hb, hw⟩ := List.forall_mem_cons.1 hw
    obtain ⟨hpick, hra, hrb⟩ := h.step ha hb
    have hnum : Arith.isNaN (pick a b) = false := by
      rcases hpick with hpick | hpick <;> rw [hpick] <;> assumption
    obtain ⟨hmem, hfar⟩ := ih hnum hw
    obtain ⟨hfar, hrest⟩ := List.forall_mem_cons.1 hfar
    rw [List.foldl_cons]
    refine ⟨?_, List.forall_mem_cons.2 ⟨h.trans hra hfar,
      List.forall_mem_cons.2 ⟨h.trans hrb hfar, hrest⟩⟩⟩
    rcases List.mem_cons.1 hmem with heq | hmem
    · rw [heq]
      rcases hpick with hpick | hpick <;> rw [hpick]
      · exact .head _
      · exact .tail _ (.head _)
    · exact .tail _ (.tail _ hmem)

/-- A search that meets a number as far as its start leaves the start. -/
theorem foldl_mem (h : Picks R pick) (ha : Arith.isNaN a = false)
    (hw : ∀ x ∈ w, Arith.isNaN x = false) (hfar : ∃ x ∈ w, R a x) : w.foldl pick a ∈ w := by
  induction w with
  | nil => simp at hfar
  | cons b w ih =>
    obtain ⟨hb, hw⟩ := List.forall_mem_cons.1 hw
    rw [List.foldl_cons]
    by_cases hab : R a b
    · rw [h.second ha hab]
      exact (h.foldl hb hw).1
    · rw [h.first ha hab]
      have hrest : ∃ x ∈ w, R a x := by simpa [hab] using hfar
      exact .tail _ (ih hw hrest)

/-- A search that meets no such number stays at its start. -/
theorem foldl_start (h : Picks R pick) (ha : Arith.isNaN a = false)
    (hnear : ∀ x ∈ w, ¬ R a x) : w.foldl pick a = a := by
  induction w with
  | nil => rfl
  | cons b w ih =>
    obtain ⟨hb, hw⟩ := List.forall_mem_cons.1 hnear
    rw [List.foldl_cons, h.first ha hb]
    exact ih hw

end Picks

/-! ## Windows -/

/-- The number is the greatest element of the window, if there are others than negative infinity. -/
structure Greatest (w : List Float) (m : Float) : Prop where
  upper : ∀ x ∈ w, x ≤ m
  attained : (∃ x ∈ w, x ≠ -infinity) → m ∈ w
  bottom : (∀ x ∈ w, x = -infinity) → m = Arith.lowest

/-- The number is the least element of the window, if there are others than infinity. -/
structure Least (w : List Float) (m : Float) : Prop where
  lower : ∀ x ∈ w, m ≤ x
  attained : (∃ x ∈ w, x ≠ infinity) → m ∈ w
  top : (∀ x ∈ w, x = infinity) → m = Arith.greatest

/-- The number is the middle element of the window in ascending order, or the mean of the two middle
ones. Sorting tells the zeros apart. -/
def Middle (w : List Float) (m : Float) : Prop :=
  ∃ s : List Float, s.Perm w ∧ s.Pairwise (· ≤ ·) ∧ s.Pairwise (fun x y => sortKey x ≤ sortKey y) ∧
    if w.length % 2 = 1 then s[w.length / 2]? = some m
    else ∃ a b, s[w.length / 2 - 1]? = some a ∧ s[w.length / 2]? = some b ∧ m = (a + b) / 2

section

variable {w : List Float} (hw : ∀ x ∈ w, Arith.isNaN x = false)

include hw

theorem greatest_foldl : Greatest w (w.foldl Arith.max Arith.lowest) := by
  refine ⟨fun x hx => (picks_max.foldl isNaN_lowest hw).2 x (.tail _ hx), ?_, fun hall => ?_⟩
  · rintro ⟨x, hx, hne⟩
    exact picks_max.foldl_mem isNaN_lowest hw ⟨x, hx, (lowest_le_iff (hw x hx)).2 hne⟩
  · refine picks_max.foldl_start isNaN_lowest fun x hx hle => ?_
    exact (lowest_le_iff (hw x hx)).1 hle (hall x hx)

theorem least_foldl : Least w (w.foldl Arith.min Arith.greatest) := by
  refine ⟨fun x hx => (picks_min.foldl isNaN_greatest hw).2 x (.tail _ hx), ?_, fun hall => ?_⟩
  · rintro ⟨x, hx, hne⟩
    exact picks_min.foldl_mem isNaN_greatest hw ⟨x, hx, (le_greatest_iff (hw x hx)).2 hne⟩
  · refine picks_min.foldl_start isNaN_greatest fun x hx hle => ?_
    exact (le_greatest_iff (hw x hx)).1 hle (hall x hx)

theorem middle_windowMedian (hne : w ≠ []) : Middle w (windowMedian w) := by
  have hperm : (w.mergeSort Arith.sortsBefore).Perm w := List.mergeSort_perm _ _
  have hsorted : (w.mergeSort Arith.sortsBefore).Pairwise fun x y => sortKey x ≤ sortKey y := by
    refine (@List.pairwise_mergeSort _ Arith.sortsBefore ?_ ?_ w).imp fun h =>
      of_decide_eq_true h
    · intro a b c hab hbc
      exact decide_eq_true ((of_decide_eq_true hab).trans (of_decide_eq_true hbc))
    · intro a b
      rw [Bool.or_eq_true]
      exact (Int.le_total (sortKey a) (sortKey b)).imp decide_eq_true decide_eq_true
  refine ⟨_, hperm, ?_, hsorted, ?_⟩
  · refine hsorted.imp_of_mem fun hx hy h => ?_
    exact le_of_sortKey_le (hw _ (hperm.mem_iff.1 hx)) (hw _ (hperm.mem_iff.1 hy)) h
  · have hlength := hperm.length_eq
    have hpos : 0 < w.length := List.length_pos_iff.2 hne
    have htwo : (2 : Float) = Arith.ofInt 2 := rfl
    unfold windowMedian
    generalize w.mergeSort Arith.sortsBefore = s at *
    dsimp only
    rw [hlength]
    have hupper : s[w.length / 2]? = some (s.getD (w.length / 2) Arith.nan) := by
      rw [List.getD_eq_getElem _ _ (by omega), List.getElem?_eq_getElem]
    split_ifs with hodd heven heven
    · omega
    · exact hupper
    · refine ⟨_, _, ?_, hupper, by rw [htwo]; rfl⟩
      rw [List.getD_eq_getElem _ _ (by omega), List.getElem?_eq_getElem]
    · omega

end

/-! ## Trailing windows -/

/-- The `n` elements that end at a position, or all up to it if there are fewer. -/
def trailing (xs : List Float) (n i : Nat) : List Float := newest n (xs.take (i + 1))

/-- There are as many elements, and all of them are numbers. -/
def Complete (xs : List Float) (n i : Nat) : Prop :=
  1 ≤ n ∧ n ≤ i + 1 ∧ ∀ x ∈ trailing xs n i, Arith.isNaN x = false

instance decidableComplete (xs : List Float) (n i : Nat) : Decidable (Complete xs n i) :=
  inferInstanceAs (Decidable (1 ≤ n ∧ n ≤ i + 1 ∧ ∀ x ∈ trailing xs n i, Arith.isNaN x = false))

variable {xs : List Float} {n i : Nat}

theorem length_trailing (hi : i < xs.length) : (trailing xs n i).length = min n (i + 1) := by
  rw [trailing, length_newest, List.length_take_of_le hi]

theorem window?_eq_ite (hi : i < xs.length) :
    window? xs n i = if Complete xs n i then some (trailing xs n i) else none := by
  by_cases hn : 1 ≤ n
  · have hlength := length_trailing (n := n) hi
    rw [window?_eq_newest xs hn hi]
    change (if (trailing xs n i).length < n ∨ (trailing xs n i).any Arith.isNaN = true then none
      else some (trailing xs n i)) = _
    have hcomplete : ¬ Complete xs n i ↔
        (trailing xs n i).length < n ∨ (trailing xs n i).any Arith.isNaN = true := by
      rw [Complete, ← Bool.not_eq_false, List.any_eq_false, ← not_le, ← not_and_or, hlength]
      simp only [hn, true_and, Bool.not_eq_true, le_min_iff, le_refl]
    rw [← if_congr hcomplete rfl rfl, ite_not]
  · rw [if_neg fun h => hn h.1]
    exact if_pos (.inl (by omega))

/-- A function of the trailing window, at a position. -/
theorem getElem?_windowed (f : List Float → Float) (hi : i < xs.length) :
    (windowed xs n f)[i]? =
      some (if Complete xs n i then f (trailing xs n i) else Arith.nan) := by
  rw [windowed, List.getElem?_map, List.getElem?_range hi, Option.map_some, window?_eq_ite hi]
  split_ifs <;> rfl

/-- What the order statistics of a window are. -/
structure Statistics (w : List Float) (high low mid : Float) : Prop where
  greatest : Greatest w high
  least : Least w low
  middle : Middle w mid
  ordered : low ≤ high

theorem statistics {w : List Float} (hw : ∀ x ∈ w, Arith.isNaN x = false) (hne : w ≠ []) :
    Statistics w (w.foldl Arith.max Arith.lowest) (w.foldl Arith.min Arith.greatest)
      (windowMedian w) := by
  have hhigh := greatest_foldl hw
  have hlow := least_foldl hw
  obtain ⟨x, hx⟩ := List.exists_mem_of_ne_nil w hne
  exact ⟨hhigh, hlow, middle_windowMedian hw hne,
    Double.le_trans (hlow.lower x hx) (hhigh.upper x hx)⟩

/-! ## Negation -/

theorem min_neg (a b : Float) : Arith.min (-a) (-b) = -Arith.max a b := by
  simp only [Arith.min, Arith.max, isNaN_neg, Double.neg_le_neg_iff]
  split_ifs <;> rfl

theorem max_neg (a b : Float) : Arith.max (-a) (-b) = -Arith.min a b := by
  simp only [Arith.min, Arith.max, isNaN_neg, Double.neg_le_neg_iff]
  split_ifs <;> rfl

theorem window?_map_neg (xs : List Float) (n i : Nat) :
    window? (xs.map (- ·)) n i = (window? xs n i).map (·.map (- ·)) := by
  have hany (w : List Float) : (w.map (- ·)).any Arith.isNaN = w.any Arith.isNaN := by
    simp [List.any_map, Function.comp_def]
  unfold window?
  dsimp only
  rw [List.length_map, ← List.map_drop, ← List.map_take, hany]
  split_ifs <;> rfl

/-- A function of the window that negation turns into another one. -/
theorem windowed_map_neg {f g : List Float → Float} (h : ∀ w, g (w.map (- ·)) = -f w)
    (xs : List Float) (n : Nat) :
    windowed (xs.map (- ·)) n g = (windowed xs n f).map (- ·) := by
  have hnan : (Arith.nan : Float) = -Arith.nan := rfl
  simp only [windowed, List.length_map, List.map_map, window?_map_neg]
  refine List.map_congr_left fun i _ => ?_
  rw [Function.comp_apply]
  cases window? xs n i with
  | none => exact hnan
  | some w => exact h w

theorem lowest_map_neg (xs : List Float) (n : Nat) :
    lowest (xs.map (- ·)) n = (highest xs n).map (- ·) := by
  have hstart : (Arith.greatest : Float) = -Arith.lowest := rfl
  refine windowed_map_neg (fun w => ?_) xs n
  rw [List.foldl_map, hstart]
  exact List.foldl_hom (- ·) fun a b => min_neg a b

theorem highest_map_neg (xs : List Float) (n : Nat) :
    highest (xs.map (- ·)) n = (lowest xs n).map (- ·) := by
  refine windowed_map_neg (fun w => ?_) xs n
  rw [List.foldl_map, lowest_eq_neg]
  exact List.foldl_hom (- ·) fun a b => max_neg a b

/-! ## Order statistics -/

/-- **The order statistics of a source.** At every position with a complete window they are the
greatest, the least and the middle element of it, elsewhere they are unavailable; and negation
exchanges the two extremes. -/
theorem order_statistics (xs : List Float) (n : Nat) :
    (∀ i < xs.length, ∃ high low mid, (highest xs n)[i]? = some high ∧
      (lowest xs n)[i]? = some low ∧ (median xs n)[i]? = some mid ∧
      if Complete xs n i then Statistics (trailing xs n i) high low mid
      else high = Arith.nan ∧ low = Arith.nan ∧ mid = Arith.nan) ∧
    lowest (xs.map (- ·)) n = (highest xs n).map (- ·) ∧
    highest (xs.map (- ·)) n = (lowest xs n).map (- ·) := by
  refine ⟨fun i hi => ?_, lowest_map_neg xs n, highest_map_neg xs n⟩
  refine ⟨_, _, _, getElem?_windowed _ hi, getElem?_windowed _ hi, getElem?_windowed _ hi, ?_⟩
  by_cases hcomplete : Complete xs n i
  · simp only [if_pos hcomplete]
    obtain ⟨hn, hni, hw⟩ := hcomplete
    have hlength := length_trailing (n := n) hi
    exact statistics hw (List.ne_nil_of_length_pos (by omega))
  · simp only [if_neg hcomplete, and_self]

/-- Three values, one of them infinite. -/
def rising : List Float := [2, -1, infinity]

theorem order_statistics_rising : Complete rising 3 2 ∧ (highest rising 3)[2]? = some infinity ∧
    (lowest rising 3)[2]? = some (-1 : Float) ∧
    ∃ mid, (median rising 3)[2]? = some mid ∧ Statistics rising infinity (-1) mid := by
  have hcomplete : Complete rising 3 2 := by decide +kernel
  have hhighest : (highest rising 3)[2]? = some infinity := by decide +kernel
  have hlowest : (lowest rising 3)[2]? = some (-1 : Float) := by decide +kernel
  refine ⟨hcomplete, hhighest, hlowest, ?_⟩
  obtain ⟨high, low, mid, hhigh, hlow, hmid, h⟩ := (order_statistics rising 3).1 2 (by decide)
  obtain rfl : infinity = high := Option.some.inj (hhighest.symm.trans hhigh)
  obtain rfl : -1 = low := Option.some.inj (hlowest.symm.trans hlow)
  rw [if_pos hcomplete] at h
  exact ⟨mid, hmid, h⟩

/-- A window of nothing but negative infinities, whose greatest value is not among them. -/
theorem highest_not_mem : Complete [-infinity, -infinity] 2 1 ∧
    (highest [-infinity, -infinity] 2)[1]? = some Arith.lowest ∧
    ∀ x ∈ trailing [-infinity, -infinity] 2 1, x ≠ Arith.lowest := by
  decide +kernel

end BarScript
