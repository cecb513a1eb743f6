import Mathlib
import BarScript.Arith.Double
import BarScript.Proofs.Trailing
import BarScript.Proofs.View
import BarScript.Technical

/-!
# Indicators at a bar and over a whole series

What a call gives at a bar is what the indicator gives there over the whole series, rounded
(`Technical.agrees_with_whole_series`). The series that a call gets ends at the bar, and no output
looks ahead; the calls that hand over the newest values only hand over all that the newest output
looks at.
-/

namespace BarScript

variable {α β : Type}

namespace Technical

/-- The view of a series with a value for every bar of the market, cut at the bar of the calls. -/
structure Shows (t : Technical α) (xs : List β) (v : View β) : Prop where
  length : xs.length = t.snapshot.market.size
  toList : v.toList = xs.take (t.snapshot.bar + 1)

/-- The values of a price at all bars of the market. -/
def column [Arith α] (t : Technical α) (p : Price) : List α := (t.snapshot.market.prices p).toList

variable [Arith α] {t : Technical α} {xs : List α} {v : View α}

/-- The value is the rounded element of a series at the bar of the calls. -/
def At (t : Technical α) (ys : List α) (value : α) : Prop :=
  ys[t.snapshot.bar]?.map t.precision.apply = some value

/-- The calls without a handle give, of the view of a series, what the indicators give at the bar over
the whole series. -/
structure Agrees (t : Technical α) (xs : List α) (v : View α) : Prop where
  ema : ∀ p, t.At (BarScript.ema xs p) (t.ema v p none).1
  rma : ∀ p, t.At (BarScript.rma xs p) (t.rma v p none).1
  rsi : ∀ p, t.At (BarScript.rsi xs p) (t.rsi v p none).1
  atr : ∀ p, t.At (BarScript.atr (t.column .high) (t.column .low) (t.column .close) p)
    (t.atr p none).1
  wma : ∀ p, t.At (BarScript.wma xs p) (t.wma v p).1
  hma : ∀ p, t.At (BarScript.hma xs p) (t.hma v p).1
  vwma : ∀ p, t.At (BarScript.vwma xs (t.column .volume) p) (t.vwma v p).1
  dema : ∀ p, t.At (BarScript.dema xs p) (t.dema v p).1
  tema : ∀ p, t.At (BarScript.tema xs p) (t.tema v p).1
  swma : t.At (BarScript.swma xs) (t.swma v).1
  change : ∀ n, t.At (BarScript.change xs n) (t.change v n).1
  mom : ∀ n, t.At (BarScript.mom xs n) (t.mom v n).1
  roc : ∀ n, t.At (BarScript.roc xs n) (t.roc v n).1
  stdev : ∀ n biased, t.At (BarScript.stdev xs n biased) (t.stdev v n biased).1
  variance : ∀ n biased, t.At (BarScript.variance xs n biased) (t.variance v n biased).1
  dev : ∀ n, t.At (BarScript.dev xs n) (t.dev v n).1
  highest : ∀ n, t.At (BarScript.highest xs n) (t.highest v n).1
  lowest : ∀ n, t.At (BarScript.lowest xs n) (t.lowest v n).1
  median : ∀ n, t.At (BarScript.median xs n) (t.median v n).1
  linreg : ∀ n offset, t.At (BarScript.linreg xs n offset) (t.linreg v n offset).1
  /-- The direction is not rounded. -/
  supertrend : ∀ factor p,
    let whole := BarScript.supertrend (t.column .high) (t.column .low) (t.column .close) factor p
    t.At whole.1 (t.supertrend factor p).1.1 ∧
      whole.2[t.snapshot.bar]? = some (t.supertrend factor p).1.2
  vwap : ∀ anchor view, Option.Rel t.Shows anchor view →
    t.At (BarScript.vwap xs (t.column .volume) (anchor.map (·.map Arith.truth))) (t.vwap v view).1
  vwapBands : ∀ anchor view multiple, Option.Rel t.Shows anchor view →
    let whole := BarScript.vwapBands xs (t.column .volume) (anchor.map (·.map Arith.truth)) multiple
    t.At whole.mean (t.vwapBands v view multiple).1.1 ∧
      t.At whole.upper (t.vwapBands v view multiple).1.2.1 ∧
        t.At whole.lower (t.vwapBands v view multiple).1.2.2

theorem At.of_take {ys : List α} {value : α} (hbar : t.snapshot.bar < ys.length)
    (h : lastValue (ys.take (t.snapshot.bar + 1)) = value) : t.At ys (t.precision.apply value) := by
  rw [At, getElem?_eq_lastValue hbar, h, Option.map_some]

section

variable (hbar : t.snapshot.bar < t.snapshot.market.size)

include hbar

omit hbar in
theorem column_eq (p : Price) : t.column p = t.snapshot.market.bars.toList.map p.ofBar :=
  Array.toList_map

omit hbar in
theorem length_column (p : Price) : (t.column p).length = t.snapshot.market.size := by
  rw [column_eq, List.length_map]
  rfl

theorem prices_eq_map (p : Price) :
    t.prices p = (t.snapshot.market.bars.toList.take (t.snapshot.bar + 1)).map p.ofBar := by
  rw [prices, Snapshot.price, Snapshot.toList_view, if_pos hbar]

/-- The prices of the calls are the columns cut at the bar. -/
theorem prices_eq (p : Price) : t.prices p = (t.column p).take (t.snapshot.bar + 1) := by
  rw [prices_eq_map hbar, column_eq, List.map_take]

theorem atr_agrees (n : Nat) :
    t.At (BarScript.atr (t.column .high) (t.column .low) (t.column .close) n) (t.atr n none).1 := by
  have hatr := barwise_atr (α := α) Price.high.ofBar Price.low.ofBar Price.close.ofBar n
  simp only [column_eq]
  refine .of_take (by rw [hatr.length]; exact hbar) ?_
  rw [← hatr.take, ← prices_eq_map hbar, ← prices_eq_map hbar, ← prices_eq_map hbar]

theorem vwma_agrees (h : t.Shows xs v) (n : Nat) :
    t.At (BarScript.vwma xs (t.column .volume) n) (t.vwma v n).1 := by
  have hwhole : xs.length = (t.column .volume).length := by rw [h.length, length_column]
  have hcut : v.toList.length = (t.prices .volume).length := by
    rw [h.toList, prices_eq hbar, List.length_take, List.length_take, hwhole]
  refine .of_take (by rw [length_vwma n hwhole, h.length]; exact hbar) ?_
  rw [← vwma_take n hwhole, ← h.toList, ← prices_eq hbar, ← lastValue_vwma n hcut]
  show _ = lastValue (BarScript.vwma (newest n (aligned v.toList (t.prices .volume)).1)
    (newest n (aligned v.toList (t.prices .volume)).2) n)
  rw [aligned_of_length_eq hcut]

theorem supertrend_agrees (factor : α) (p : Nat) :
    let whole := BarScript.supertrend (t.column .high) (t.column .low) (t.column .close) factor p
    t.At whole.1 (t.supertrend factor p).1.1 ∧
      whole.2[t.snapshot.bar]? = some (t.supertrend factor p).1.2 := by
  have hbands := barwise_supertrendBands (α := α) Price.high.ofBar Price.low.ofBar Price.close.ofBar
    factor p
  have hcut : supertrendBands (t.prices .high) (t.prices .low) (t.prices .close) factor p =
      (supertrendBands (t.column .high) (t.column .low) (t.column .close) factor p).take
        (t.snapshot.bar + 1) := by
    simp only [prices_eq_map hbar, column_eq]
    exact hbands.take _ _
  have hread (f : Option (Bands α) → α) :
      ((supertrendBands (t.column .high) (t.column .low) (t.column .close) factor p).map f).take
          (t.snapshot.bar + 1) =
        (supertrendBands (t.prices .high) (t.prices .low) (t.prices .close) factor p).map f := by
    rw [hcut, List.map_take]
  have hlength (f : Option (Bands α) → α) : t.snapshot.bar <
      ((supertrendBands (t.column .high) (t.column .low) (t.column .close) factor p).map f).length := by
    simp only [column_eq]
    rw [List.length_map, hbands.length]
    exact hbar
  exact ⟨.of_take (hlength _) (congrArg lastValue (hread _)),
    (getElem?_eq_lastValue (hlength _)).trans (congrArg (some <| lastValue ·) (hread _))⟩

omit hbar in
/-- The flags of an anchor that is there for every bar. -/
theorem flags_shown {anchor : Option (List α)} {view : Option (View α)}
    (h : Option.Rel t.Shows anchor view) :
    view.map flags = (anchor.map (·.map Arith.truth)).map (·.take (t.snapshot.bar + 1)) ∧
      ∀ fs ∈ anchor.map (·.map Arith.truth), fs.length = t.snapshot.market.size := by
  cases h with
  | none => exact ⟨rfl, by rintro _ ⟨⟩⟩
  | some h =>
    refine ⟨?_, ?_⟩
    · simp [flags, h.toList]
    · rintro _ ⟨⟩
      rw [List.length_map, h.length]

theorem segments_shown (h : t.Shows xs v) {anchor : Option (List α)} {view : Option (View α)}
    (hanchor : Option.Rel t.Shows anchor view) :
    segments v.toList (t.prices .volume) (view.map flags) =
      (segments xs (t.column .volume) (anchor.map (·.map Arith.truth))).take
        (t.snapshot.bar + 1) := by
  have hwhole : xs.length = (t.column .volume).length := by rw [h.length, length_column]
  obtain ⟨hflags, hlength⟩ := flags_shown hanchor
  rw [← h.length] at hlength
  rw [← segments_take hwhole hlength, hflags, h.toList, prices_eq hbar]

theorem At.of_segments (h : t.Shows xs v) {anchor : Option (List α)} {view : Option (View α)}
    (hanchor : Option.Rel t.Shows anchor view) (f : Segment α → α) :
    t.At (ofSegments f (segments xs (t.column .volume) (anchor.map (·.map Arith.truth))))
      (t.precision.apply (lastValue (ofSegments f
        (segments v.toList (t.prices .volume) (view.map flags))))) := by
  have hwhole : xs.length = (t.column .volume).length := by rw [h.length, length_column]
  have hlength := (flags_shown hanchor).2
  rw [← h.length] at hlength
  refine .of_take ?_ ?_
  · rw [ofSegments, List.length_map, length_segments hwhole hlength, h.length]
    exact hbar
  · rw [segments_shown hbar h hanchor, ofSegments, ofSegments, List.map_take]

variable (h : t.Shows xs v)

include h

/-- A function of the source that does not look ahead. -/
theorem At.of_source {F : List α → List α} (hF : Barwise F) {value : α}
    (hvalue : value = lastValue (F v.toList)) : t.At (F xs) (t.precision.apply value) := by
  refine .of_take (by rw [hF.length, h.length]; exact hbar) ?_
  rw [← hF.take, ← h.toList, hvalue]

/-- A function of the trailing windows. -/
theorem At.of_windows (n : Nat) (f : List α → α) : t.At (windowed xs n f)
    (t.precision.apply (lastValue (windowed (newest n v.toList) n f))) :=
  .of_source hbar h (.windowed n f) (lastValue_windowed v.toList n f)

omit [Arith α] hbar in
theorem length_source : v.toList.length ≤ t.snapshot.market.size := by
  rw [h.toList, ← h.length]
  exact List.length_take_le' ..

theorem At.of_lagged (n : Nat) (f : α → α → α) (hsize : t.snapshot.market.size ≤ Arith.maxCount) :
    t.At (lagged xs n f) (t.precision.apply
      (lastValue (lagged (newest (Arith.addCount n 1) v.toList) n f))) :=
  .of_source hbar h (barwise_lagged n f)
    (lastValue_lagged v.toList n f (Nat.le_trans (length_source h) hsize))

end

/-- **The calls at a bar** give what the indicators give there over the whole series, whatever the
parameters and the numbers. A market has no more bars than a count can say. -/
theorem agrees_with_whole_series (hbar : t.snapshot.bar < t.snapshot.market.size)
    (hsize : t.snapshot.market.size ≤ Arith.maxCount) (h : t.Shows xs v) : t.Agrees xs v where
  ema _ := .of_source hbar h (.replay _) rfl
  rma _ := .of_source hbar h (.replay _) rfl
  rsi _ := .of_source hbar h (.replay _) rfl
  atr n := atr_agrees hbar n
  wma n := .of_windows hbar h n _
  hma n := .of_source hbar h (barwise_hma n)
    (lastValue_hma v.toList n (Nat.le_trans (length_source h) hsize))
  vwma n := vwma_agrees hbar h n
  dema n := .of_source hbar h (barwise_dema n) rfl
  tema n := .of_source hbar h (barwise_tema n) rfl
  swma := .of_windows hbar h 4 _
  change n := .of_lagged hbar h n _ hsize
  mom n := .of_lagged hbar h n _ hsize
  roc n := .of_lagged hbar h n _ hsize
  stdev n _ := .of_windows hbar h n _
  variance n _ := .of_windows hbar h n _
  dev n := .of_windows hbar h n _
  highest n := .of_windows hbar h n _
  lowest n := .of_windows hbar h n _
  median n := .of_windows hbar h n _
  linreg n _ := .of_windows hbar h n _
  supertrend := supertrend_agrees hbar
  vwap _ _ hanchor := .of_segments hbar h hanchor _
  vwapBands _ _ _ hanchor :=
    ⟨.of_segments hbar h hanchor _, .of_segments hbar h hanchor _, .of_segments hbar h hanchor _⟩

/-- The second of three bars, where the source is not available. -/
theorem agrees_with_whole_series_second :
    let bars : List (Bar Float) := [⟨0, 1, 2, 3, 1, 2, 5⟩, ⟨1, 2, 2, 4, 2, 4, 5⟩, ⟨2, 3, 4, 5, 3, 3, 5⟩]
    let t : Technical Float := ⟨.fresh, .fresh, ⟨⟨bars.toArray⟩, 1⟩, .standard, true⟩
    let xs : List Float := [1, Arith.nan, 3]
    let v : View Float := .ofList [1, Arith.nan]
    t.snapshot.bar < t.snapshot.market.size ∧ t.snapshot.market.size ≤ Arith.maxCount ∧
      t.Shows xs v ∧ t.Agrees xs v := by
  intro bars t xs v
  have hbar : t.snapshot.bar < t.snapshot.market.size := by decide
  have hsize : t.snapshot.market.size ≤ Arith.maxCount := by decide +kernel
  have hv : t.Shows xs v := ⟨rfl, rfl⟩
  exact ⟨hbar, hsize, hv, agrees_with_whole_series hbar hsize hv⟩

end Technical

end BarScript
