import Mathlib
import BarScript.Proofs.CacheEntry
import BarScript.Proofs.Grid
import BarScript.Proofs.RunningMean
import BarScript.Proofs.Unavailable
import BarScript.Run.Context

/-!
# The moving mean with the cache and without it

Called at one bar after another, the moving mean keeps its sum in the cache, while without the cache
it sums the window anew at every bar. The two sums are the same at all bars if and only if a window
slides: taking the oldest value off its sum and adding the next one gives the sum of the next window
(`runningSum_eq_total_iff`). Doubles need not slide, since a sum may be rounded or overflow; those
on a grid do, as long as the sums of a window need no more than 53 bits (`Grid.slides`).
-/

namespace BarScript

variable {α : Type} [Arith α]

/-! ## Calls at one bar after another -/

/-- The moving means of the closes at some bars, called one after another under one handle. -/
def Context.closeMeans (ctx : Context α) (period handle : Nat) : List Nat → List α
  | [] => []
  | bar :: bars =>
    let ctx := { ctx with bar := bar }
    let (mean, t) := ctx.technical.sma (ctx.snapshot.price .close) period (some handle)
    mean :: (ctx.absorb t).closeMeans period handle bars

/-- The closes of a market. -/
def Market.closes (m : Market α) : List α := m.bars.toList.map (·.close)

/-- The closes up to a bar. -/
def Market.closesTo (m : Market α) (bar : Nat) : List α :=
  ((⟨m, bar⟩ : Snapshot α).price .close).toList

theorem Market.closesTo_prefix (m : Market α) (bar : Nat) : m.closesTo bar <+: m.closes :=
  Snapshot.view_prefix _ _

theorem Market.closesTo_eq {m : Market α} {bar : Nat} (h : bar < m.size) :
    m.closesTo bar = m.closes.take (bar + 1) := by
  rw [closesTo, closes, ← List.map_take, Snapshot.price, Snapshot.toList_view]
  exact if_pos h

theorem Context.closeMeans_uncached {ctx : Context α} (h : ctx.useCache = false)
    (period handle : Nat) (bars : List Nat) :
    ctx.closeMeans period handle bars = bars.map fun bar =>
      ctx.precision.apply (lastValue (sma (newest period (ctx.market.closesTo bar)) period)) := by
  induction bars generalizing ctx with
  | nil => rfl
  | cons bar bars ih =>
    obtain ⟨market, _, results, stores, cache, warmup, precision, useCache, outputs⟩ := ctx
    obtain rfl : useCache = false := h
    exact congrArg (_ :: ·) (ih rfl)

theorem Context.closeMeans_cached {ctx : Context α} (h : ctx.useCache = true) {period handle : Nat}
    (hentry : ∀ e p, ctx.cache.entries.find? handle = some e → e.kind = .sma p →
      Follows .sma (MeanState.fresh : Nat → MeanState α) ctx.market.closes e) (bars : List Nat) :
    ctx.closeMeans period handle bars = bars.map fun bar =>
      ctx.precision.apply (lastValue (sma (ctx.market.closesTo bar) period)) := by
  induction bars generalizing ctx with
  | nil => rfl
  | cons bar bars ih =>
    obtain ⟨market, _, results, stores, cache, warmup, precision, useCache, outputs⟩ := ctx
    obtain rfl : useCache = true := h
    obtain ⟨hvalue, -, hfollows⟩ := cache.evaluate_spec (σ := MeanState α) period
      (fun _ _ => Kind.sma.inj) (market.closesTo_prefix bar) hentry
    refine congrArg₂ (· :: ·) (congrArg precision.apply hvalue) (ih rfl fun e p he hkind => ?_)
    rcases hfollows e he with h | h
    · exact h
    · exact hentry e p h hkind

/-! ## The sum of the cache -/

/-- The sum that the moving mean keeps after some values. -/
def runningSum (period : Nat) (xs : List α) : α :=
  (feed (MeanState.fresh period : MeanState α) xs).2.sum

/-- The sum of a window taken anew. -/
def total (xs : List α) : α := xs.foldl (· + ·) 0

theorem total_concat (xs : List α) (x : α) : total (xs ++ [x]) = total xs + x := by
  rw [total, List.foldl_append]
  rfl

theorem lastValue_sma {period : Nat} (hperiod : 1 ≤ period) (xs : List α) :
    lastValue (sma xs period) = (feed (MeanState.fresh period : MeanState α) xs).2.mean := by
  rcases List.eq_nil_or_concat xs with rfl | ⟨older, x, rfl⟩
  · exact (if_pos (.inl hperiod)).symm
  · rw [List.concat_eq_append, sma, replay_append, feed_append]
    have hbefore := MeanState.holds_feed_fresh hperiod older
    generalize (feed (MeanState.fresh period : MeanState α) older).2 = s at hbefore ⊢
    simp only [lastValue, replay, feed, List.getLast?_concat, Option.getD_some]
    exact MeanState.next_output (hbefore.period ▸ hperiod) x

/-- Two series with the same newest values and the same sums have the same newest mean. -/
theorem lastValue_sma_congr {period : Nat} (hperiod : 1 ≤ period) {xs ys : List α}
    (hnewest : newest period xs = newest period ys)
    (hsum : runningSum period xs = runningSum period ys) :
    lastValue (sma xs period) = lastValue (sma ys period) := by
  rw [runningSum, runningSum] at hsum
  rw [lastValue_sma hperiod, lastValue_sma hperiod, (MeanState.holds_feed_fresh hperiod xs).mean,
    (MeanState.holds_feed_fresh hperiod ys).mean, hnewest, hsum]

omit [Arith α] in
theorem newest_append {n : Nat} (xs : List α) {ys : List α} (h : ys.length = n) :
    newest n (xs ++ ys) = ys := by
  rw [newest, List.length_append, h, Nat.add_sub_cancel, List.drop_left]

omit [Arith α] in
theorem newest_newest (n : Nat) (xs : List α) : newest n (newest n xs) = newest n xs :=
  newest_of_length_le (length_newest_le n xs)

section

variable {period : Nat} {xs : List α} {x : α}

theorem runningSum_concat (hperiod : 1 ≤ period) (hx : Arith.isNaN x = false) :
    runningSum period (xs ++ [x]) =
      (feed (MeanState.fresh period : MeanState α) xs).2.opened.sum + x := by
  have hs := MeanState.holds_feed_fresh hperiod xs
  rw [runningSum, feed_append]
  generalize (feed (MeanState.fresh period : MeanState α) xs).2 = s at hs ⊢
  change (s.next x).2.sum = s.opened.sum + x
  rw [MeanState.next_eq (hs.period ▸ hperiod), MeanState.add_sum, if_neg (by simp [hx])]

theorem runningSum_concat_room (hx : Arith.isNaN x = false) (h : xs.length < period) :
    runningSum period (xs ++ [x]) = runningSum period xs + x := by
  have hperiod : 1 ≤ period := by omega
  have hs := MeanState.holds_feed_fresh hperiod xs
  rw [runningSum_concat hperiod hx, runningSum, MeanState.opened, if_neg]
  rw [hs.window, hs.period, newest_of_length_le (by omega)]
  omega

theorem runningSum_concat_full {old : α} {rest : List α} (hperiod : 1 ≤ period)
    (hx : Arith.isNaN x = false) (hwindow : newest period xs = old :: rest)
    (hfull : (old :: rest).length = period) (hold : Arith.isNaN old = false)
    (hfinite : Arith.isFinite old = true) :
    runningSum period (xs ++ [x]) = runningSum period xs - old + x := by
  have hs := MeanState.holds_feed_fresh hperiod xs
  rw [runningSum_concat hperiod hx, runningSum]
  generalize (feed (MeanState.fresh period : MeanState α) xs).2 = s at hs ⊢
  have hlist : s.window = old :: rest := hs.window.trans hwindow
  have hopened : s.opened = s.dropOldest := by
    refine if_pos ?_
    rw [hlist, hs.period, hfull]
  have hdropped : s.dropOldest.sum = s.sum - old := by
    rw [MeanState.dropOldest, hlist]
    simp [hold, hfinite]
  rw [hopened, hdropped]

end

/-! ## Sliding windows -/

/-- Wherever a window moves on by one value, its sum less the oldest value and plus the new one is
the sum of the next window. -/
def Slides (period : Nat) (xs : List α) : Prop :=
  ∀ old w new, (old :: w).length = period → old :: w ++ [new] <:+: xs →
    total (old :: w) - old + new = total (w ++ [new])

/-- The sum of the cache is the one of the window at all bars if and only if the window slides. -/
theorem runningSum_eq_total_iff [Arith.Lawful α] {period : Nat} (hperiod : 1 ≤ period) {xs : List α}
    (hfinite : ∀ x ∈ xs, Arith.isFinite x = true) :
    (∀ ys, ys <+: xs → runningSum period ys = total (newest period ys)) ↔ Slides period xs := by
  have havailable : ∀ x ∈ xs, Arith.isNaN x = false := fun x hx =>
    Arith.Lawful.finite (hfinite x hx)
  constructor
  · rintro h old w new hlength ⟨older, newer, rfl⟩
    have hbefore := h (older ++ old :: w) ⟨[new] ++ newer, by simp⟩
    have hafter := h (older ++ old :: w ++ [new]) ⟨newer, by simp⟩
    have hlength' : (w ++ [new]).length = period := by simpa using hlength
    have hnext : newest period (older ++ old :: w ++ [new]) = w ++ [new] := by
      have hsplit : older ++ old :: w ++ [new] = older ++ [old] ++ (w ++ [new]) := by simp
      rw [hsplit, newest_append _ hlength']
    have hwindow := newest_append older hlength
    rw [hwindow] at hbefore
    rw [hnext] at hafter
    rw [← hbefore, ← hafter]
    refine (runningSum_concat_full hperiod (havailable _ ?_) hwindow hlength (havailable _ ?_)
      (hfinite _ ?_)).symm <;> simp
  · intro h ys hys
    induction ys using List.reverseRecOn with
    | nil => simp [runningSum, feed, MeanState.fresh, newest, total]
    | append_singleton ys y ih =>
      have hprefix : ys <+: xs := (List.prefix_append ys [y]).trans hys
      have hy : Arith.isNaN y = false := havailable y (hys.subset (by simp))
      have hsum := ih hprefix
      rcases Nat.lt_or_ge ys.length period with hroom | hfull
      · have hlong : (ys ++ [y]).length ≤ period := by simpa using hroom
        rw [newest_of_length_le (by omega)] at hsum
        rw [runningSum_concat_room hy hroom, newest_of_length_le hlong, total_concat, hsum]
      · have hlength : (newest period ys).length = period := length_newest_of_le hfull
        obtain ⟨old, w, hwindow⟩ : ∃ old w, newest period ys = old :: w :=
          List.exists_cons_of_length_pos (by omega)
        obtain ⟨older, holder⟩ : ∃ older, ys = older ++ (old :: w) := by
          refine ⟨ys.take (ys.length - period), ?_⟩
          rw [← hwindow, newest, List.take_append_drop]
        have hold : old ∈ xs := hprefix.subset (by simp [holder])
        rw [hwindow] at hlength hsum
        have hnext : newest period (ys ++ [y]) = w ++ [y] := by
          rw [newest_concat hperiod, hwindow, if_pos hlength, List.tail_cons]
        rw [runningSum_concat_full hperiod hy hwindow hlength (havailable old hold)
          (hfinite old hold), hnext, hsum]
        refine h old w y hlength (List.IsInfix.trans ⟨older, [], ?_⟩ hys.isInfix)
        rw [holder]
        simp

/-- The newest mean is a mean of the newest values if their window slides. -/
theorem lastValue_sma_newest [Arith.Lawful α] {period : Nat} (hperiod : 1 ≤ period) {xs ys : List α}
    (hfinite : ∀ x ∈ xs, Arith.isFinite x = true) (hslides : Slides period xs) (hys : ys <+: xs) :
    lastValue (sma ys period) = lastValue (sma (newest period ys) period) := by
  have hsum := (runningSum_eq_total_iff hperiod hfinite).2 hslides ys hys
  have hnewest : ∀ x ∈ newest period ys, Arith.isFinite x = true := fun x hx =>
    hfinite x (hys.subset (List.mem_of_mem_drop hx))
  have hshort : Slides period (newest period ys) := by
    intro old w new hlength hinfix
    have hle := hinfix.length_le
    have hmin : (newest period ys).length ≤ period := length_newest_le period ys
    simp at hlength hle
    omega
  have hsum' := (runningSum_eq_total_iff hperiod hnewest).2 hshort _ (List.prefix_refl _)
  rw [newest_newest] at hsum'
  exact lastValue_sma_congr hperiod (newest_newest period ys).symm (hsum.trans hsum'.symm)

/-! ## Doubles on a grid -/

/-- The values are multiples of one power of two, and no sum of up to `period` consecutive ones is
more than 53 bits long. -/
def OnGrid (period : Nat) (xs : List Float) : Prop :=
  ∃ e ns, Double.InRange e ∧ xs = ns.map (Double.dyadic e) ∧
    ∀ w, w <:+: ns → w.length ≤ period → w.sum.natAbs < 2 ^ 53

section

variable {period : Nat} {e : Int} {ns : List Int}

theorem total_dyadic (he : Double.InRange e)
    (hsums : ∀ w, w <:+: ns → w.length ≤ period → w.sum.natAbs < 2 ^ 53) (hperiod : 1 ≤ period)
    {w : List Int} (hw : w <:+: ns) (hlength : w.length ≤ period) :
    total (w.map (Double.dyadic e)) = Double.dyadic e w.sum := by
  induction w using List.reverseRecOn with
  | nil =>
    have hzero : (total [] : Float) = Double.dyadic 0 0 := rfl
    exact hzero
  | append_singleton w n ih =>
    have hbefore : w <:+: ns := (List.prefix_append w [n]).isInfix.trans hw
    have hlast : [n] <:+: ns := (List.suffix_append w [n]).isInfix.trans hw
    have hshort : w.length ≤ period := by
      rw [List.length_append] at hlength
      omega
    have hn : n.natAbs < 2 ^ 53 := by simpa using hsums [n] hlast hperiod
    have hsum := hsums _ hw hlength
    rw [List.sum_append, List.sum_singleton] at hsum ⊢
    rw [List.map_append, List.map_singleton, total_concat, ih hbefore hshort,
      Double.dyadic_add he (hsums w hbefore hshort) hn hsum]

theorem OnGrid.slides {xs : List Float} (h : OnGrid period xs) (hperiod : 1 ≤ period) :
    Slides period xs := by
  obtain ⟨e, ns, he, rfl, hsums⟩ := h
  intro old w new hlength hinfix
  obtain ⟨v, hv, hmap⟩ := List.infix_map_iff.1 hinfix
  obtain ⟨before, last, rfl, hbefore, hlast⟩ := List.map_eq_append_iff.1 hmap.symm
  obtain ⟨first, middle, rfl, rfl, rfl⟩ := List.map_eq_cons_iff.1 hbefore
  obtain ⟨n, rfl, rfl⟩ := List.map_eq_singleton_iff.1 hlast
  rw [List.length_cons, List.length_map] at hlength
  have hfirst : first :: middle <:+: ns := (List.prefix_append _ [n]).isInfix.trans hv
  have hsecond : middle ++ [n] <:+: ns := (List.suffix_cons first _).isInfix.trans hv
  have hmiddle : middle <:+: ns := (List.suffix_cons first middle).isInfix.trans hfirst
  have hmiddleSum := hsums middle hmiddle (by omega)
  have hfirstSum := hsums _ hfirst (by simpa using hlength.le)
  have hold : first.natAbs < 2 ^ 53 := by
    simpa using hsums [first] ((List.prefix_append [first] middle).isInfix.trans hfirst) hperiod
  have hnew : n.natAbs < 2 ^ 53 := by
    simpa using hsums [n] ((List.suffix_append middle [n]).isInfix.trans hsecond) hperiod
  have hsecondSum := hsums _ hsecond (by simpa using hlength.le)
  have hrest : (first :: middle).sum - first = middle.sum := by simp
  have hnext : middle.sum + n = (middle ++ [n]).sum := by simp
  rw [← List.map_cons, ← List.map_singleton, ← List.map_append,
    total_dyadic he hsums hperiod hfirst (by simpa using hlength.le),
    total_dyadic he hsums hperiod hsecond (by simpa using hlength.le),
    Double.dyadic_sub he hfirstSum hold (hrest ▸ hmiddleSum), hrest,
    Double.dyadic_add he hmiddleSum hnew (hnext ▸ hsecondSum), hnext]

/-- It is enough that no value is too large. -/
theorem onGrid_of_le (he : Double.InRange e) {bound : Nat} (hbound : period * bound < 2 ^ 53)
    (hns : ∀ n ∈ ns, n.natAbs ≤ bound) : OnGrid period (ns.map (Double.dyadic e)) := by
  refine ⟨e, ns, he, rfl, fun w hw hlength => ?_⟩
  have hsum : ∀ v : List Int, (∀ n ∈ v, n.natAbs ≤ bound) → v.sum.natAbs ≤ v.length * bound := by
    intro v hv
    induction v with
    | nil => simp
    | cons n v ih =>
      have hn := hv n (by simp)
      have hrest := ih fun k hk => hv k (by simp [hk])
      have habs := Int.natAbs_add_le n v.sum
      rw [List.sum_cons, List.length_cons, Nat.add_mul]
      omega
  have hle := hsum w fun n hn => hns n (hw.subset hn)
  have hmul := Nat.mul_le_mul_right bound hlength
  omega

end

/-! ## With the cache and without it -/

/-- **The moving mean with the cache and without it**, on doubles. The sum of the cache is the sum
of the window at every bar if and only if the window slides, and then the calls with the cache, at
any bars one after another, give what they give without it, whatever the precision. On a grid the
window slides. -/
theorem closeMeans_eq_uncached {m : Market Float} {period : Nat} (hperiod : 1 ≤ period)
    (hfinite : ∀ x ∈ m.closes, Arith.isFinite x = true) :
    ((∀ ys, ys <+: m.closes → runningSum period ys = total (newest period ys)) ↔
        Slides period m.closes) ∧
      (Slides period m.closes → ∀ (precision : Precision) (handle : Nat) (bars : List Nat),
        (Context.fresh m precision true).closeMeans period handle bars =
          (Context.fresh m precision false).closeMeans period handle bars) ∧
      (OnGrid period m.closes → Slides period m.closes) := by
  refine ⟨runningSum_eq_total_iff hperiod hfinite, fun hslides precision handle bars => ?_,
    fun h => h.slides hperiod⟩
  have hentry : ∀ e p, (Context.fresh m precision true).cache.entries.find? handle = some e →
      e.kind = .sma p → Follows .sma (MeanState.fresh : Nat → MeanState Float) m.closes e := nofun
  rw [Context.closeMeans_cached rfl hentry, Context.closeMeans_uncached rfl]
  refine List.map_congr_left fun bar _ => ?_
  exact congrArg precision.apply
    (lastValue_sma_newest hperiod hfinite hslides (m.closesTo_prefix bar))

/-- Bars with the given closes. -/
def barsOf (closes : List Float) : Market Float :=
  ⟨(closes.mapIdx fun i c => ⟨2 * i, 2 * i + 1, c, c, c, c, 1⟩).toArray⟩

/-- Closes in quarters. -/
theorem closeMeans_eq_uncached_quarters :
    let m := barsOf [101.5, 102.25, 99.75, 100]
    1 ≤ 2 ∧ (∀ x ∈ m.closes, Arith.isFinite x = true) ∧ OnGrid 2 m.closes ∧
      (Context.fresh m .standard true).closeMeans 2 0 [0, 1, 2, 3] =
        (Context.fresh m .standard false).closeMeans 2 0 [0, 1, 2, 3] ∧
      (Context.fresh m .standard true).closeMeans 2 0 [0, 1, 2, 3] =
        [Arith.nan, 101.875, 101, 99.875] := by
  intro m
  have hfinite : ∀ x ∈ m.closes, Arith.isFinite x = true := by decide +kernel
  have hgrid : OnGrid 2 m.closes := by
    have hcloses : m.closes = [406, 409, 399, 400].map (Double.dyadic (-2)) := by decide +kernel
    rw [hcloses]
    exact onGrid_of_le ⟨by decide, by decide⟩ (by decide : 2 * 409 < 2 ^ 53) (by decide)
  obtain ⟨-, hsame, hslides⟩ := closeMeans_eq_uncached (by decide : 1 ≤ 2) hfinite
  exact ⟨by decide, hfinite, hgrid, hsame (hslides hgrid) .standard 0 _, by decide +kernel⟩

/-- Two closes whose sum overflows: the sum of the cache is infinite from then on, also when they
have left the window. -/
theorem closeMeans_overflow :
    let m := barsOf [1.7e308, 1.7e308, 1, 1]
    (∀ x ∈ m.closes, Arith.isFinite x = true) ∧
      (Context.fresh m .standard true).closeMeans 2 0 [0, 1, 2, 3] =
        [Arith.nan, 1 / 0, 1 / 0, 1 / 0] ∧
      (Context.fresh m .standard false).closeMeans 2 0 [0, 1, 2, 3] =
        [Arith.nan, 1 / 0, 8.5e307, 1] ∧
      (Context.fresh m .standard true).closeMeans 2 0 [0, 1, 2, 3] ≠
        (Context.fresh m .standard false).closeMeans 2 0 [0, 1, 2, 3] := by
  decide +kernel

end BarScript
