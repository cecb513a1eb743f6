import BarScript.Arith.Double
import BarScript.Proofs.View
import BarScript.Proofs.Visit

/-!
# No look-ahead

What a step does at a bar depends on the market up to that bar only. `Context.Over m m'`: two
contexts are the same, one over the market `m` and one over `m'`. If the markets have the same first
`n` bars, visits to these bars keep that (`visits_over`), whatever bars follow. So two runs over
such markets cannot be told apart before bar `n` (`no_look_ahead`).
-/

namespace BarScript

variable {α : Type}

/-! ## Markets with the same first bars -/

theorem Snapshot.view_congr {β : Type} {m m' : Market α} {n bar : Nat} (f : Bar α → β)
    (h : m.bars.toList.take n = m'.bars.toList.take n) (hbar : bar < n) :
    (⟨m', bar⟩ : Snapshot α).view f = (⟨m, bar⟩ : Snapshot α).view f := by
  have htake : m.bars.toList.take (bar + 1) = m'.bars.toList.take (bar + 1) := by
    have h' := congrArg (List.take (bar + 1)) h
    simpa only [List.take_take, Nat.min_eq_left hbar] using h'
  have hsize : bar < m.size ↔ bar < m'.size := by
    have hlen := congrArg List.length htake
    simp only [List.length_take, Array.length_toList] at hlen
    unfold Market.size
    omega
  apply View.ext_toList
  simp only [Snapshot.toList_view, htake, hsize]

/-- The same context over the market `m` and over the market `m'`. -/
def Context.Over (m m' : Market α) (c c' : Context α) : Prop :=
  c.market = m ∧ c' = { c with market := m' }

theorem Context.Over.view {m m' : Market α} {n : Nat} {c c' : Context α} (h : c.Over m m' c')
    (hbars : m.bars.toList.take n = m'.bars.toList.take n) (hbar : c.bar < n)
    {β : Type} (f : Bar α → β) : c'.snapshot.view f = c.snapshot.view f := by
  obtain ⟨rfl, rfl⟩ := h
  exact Snapshot.view_congr f hbars hbar

variable [Arith α]

/-! ## A step -/

theorem Technical.streaming_snapshot {σ ι : Type} [Streaming σ ι α] [Cacheable σ α]
    (t : Technical α) (s : Snapshot α) (handle : Option Nat) (kind : Kind) (inputs : View ι)
    (init : σ) (full : Unit → α) :
    { t with snapshot := s }.streaming handle kind inputs init full =
      ((t.streaming handle kind inputs init full).1,
        { (t.streaming handle kind inputs init full).2 with snapshot := s }) := by
  unfold Technical.streaming Technical.finish
  cases handle with
  | none => rfl
  | some h => dsimp only; split <;> rfl

/-- An indicator call reads the market through views alone. -/
theorem StudyCallOf.perform_congr (k : StudyCall) (nums : List α) {m' : Market α}
    {c c' : Context α} (hrest : c' = { c with market := m' })
    (hview : ∀ {β : Type} (f : Bar α → β), c'.snapshot.view f = c.snapshot.view f) :
    k.perform nums c' =
      ((k.perform nums c).1, { (k.perform nums c).2 with snapshot := c'.snapshot }) := by
  have hsource : ∀ s : Source, s.view c' = s.view c := by
    intro s
    cases s with
    | price p => exact hview _
    | slot bank id => rw [hrest]; rfl
    | computed id value => rw [hrest]; rfl
  have hbound : (fun b : Bound => b.view? c') = fun b => b.view? c := by
    funext b
    cases b <;> simp only [Bound.view?, hsource]
  have htechnical : c'.technical = { c.technical with snapshot := c'.snapshot } := by
    rw [hrest]; rfl
  have hview : ∀ {β : Type} (f : Bar α → β),
      c'.snapshot.view f = c.technical.snapshot.view f := fun f => hview f
  obtain ⟨study, args, handle⟩ := k
  unfold StudyCallOf.perform
  simp only [hbound, htechnical]
  generalize c.technical = t at *
  generalize c'.snapshot = s at *
  cases study
  case sma | ema | rma | rsi =>
    simp only [Technical.sma, Technical.ema, Technical.rma, Technical.rsi,
      Technical.streaming_snapshot]
  case atr =>
    simp only [Technical.atr, Technical.prices, Snapshot.price, hview,
      Technical.streaming_snapshot]
  case vwma =>
    simp only [Technical.vwma, Technical.prices, Snapshot.price, hview, Technical.finish]
  case supertrend =>
    simp only [Technical.supertrend, Technical.prices, Snapshot.price, hview, Technical.finish]
  case vwap =>
    simp only [Technical.vwap, Technical.vwapBands, Technical.prices, Snapshot.price, hview,
      Technical.finish]
    split <;> rfl
  case tr => simp only [Technical.trueRange, Snapshot.price, hview]
  -- the others do not look at the market
  all_goals rfl

/-- Below bar `n`, the market may be changed for one with the same first `n` bars. -/
theorem Context.Over.simulation {m m' : Market α} {n : Nat}
    (hbars : m.bars.toList.take n = m'.bars.toList.take n) :
    Simulation fun _ c c' => Over m m' c c' ∧ c.bar < n where
  bar h := by rw [h.1.2]
  clock h k := (h.1.view hbars h.2 _).symm
  price h p := (h.1.view hbars h.2 _).symm
  stores h := by rw [h.1.2]
  outputs h := by rw [h.1.2]
  results h := by rw [h.1.2]
  skip h := h
  written h x := by
    obtain ⟨⟨rfl, rfl⟩, hbar⟩ := h
    exact ⟨⟨rfl, rfl⟩, hbar⟩
  called {k _ _ _} h nums := by
    have hp := k.perform_congr nums h.1.2 (h.1.view hbars h.2)
    obtain ⟨⟨rfl, rfl⟩, hbar⟩ := h
    rw [hp]
    exact ⟨rfl, ⟨rfl, rfl⟩, hbar⟩
  drawn h o := by
    obtain ⟨⟨rfl, rfl⟩, hbar⟩ := h
    exact ⟨⟨rfl, rfl⟩, hbar⟩

/-! ## Runs -/

theorem visits_over (p : Program) {m m' : Market α} {n : Nat} {bars : List Nat}
    (hbars : m.bars.toList.take n = m'.bars.toList.take n) (hlt : ∀ bar ∈ bars, bar < n)
    {c c' : Context α} (h : c.Over m m' c') :
    (Runner.visits p bars c).1 = (Runner.visits p bars c').1 ∧
      (Runner.visits p bars c).2.Over m m' (Runner.visits p bars c').2 := by
  obtain ⟨hout, hctx⟩ := (Context.Over.simulation hbars).visits p bars (Q := Context.Over m m')
    (fun bar hbar c c' h => ⟨⟨h.1, by rw [h.2]; rfl⟩, hlt bar hbar⟩)
    (fun c c' results h => ⟨h.1.1, by rw [h.1.2]; rfl⟩) h
  refine ⟨hout, ?_⟩
  rcases hctx with ⟨_, hq⟩ | ⟨_, hr⟩
  · exact hq
  · exact hr.1

namespace Runner

/-- The bars of a run that come before bar `stop`. -/
def windowTo (m : Market α) (count : Option Nat) (stop : Nat) : List Nat :=
  let (first, total) := barRange m.size count
  List.range' first (min total stop - first)

/-- The bars of a run from bar `stop` on. -/
def windowFrom (m : Market α) (count : Option Nat) (stop : Nat) : List Nat :=
  let (first, total) := barRange m.size count
  List.range' (max first stop) (total - max first stop)

/-- A run as far as bar `stop`, which it does not visit. -/
def runTo (p : Program) (ctx : Context α) (count : Option Nat) (stop : Nat) :
    Except Failure Unit × Context α :=
  visits p (windowTo ctx.market count stop) ctx

omit [Arith α] in
theorem windowTo_append_windowFrom (m : Market α) (count : Option Nat) (stop : Nat) :
    windowTo m count stop ++ windowFrom m count stop = window m count := by
  simp only [windowTo, windowFrom, window]
  generalize (barRange m.size count).1 = first
  generalize (barRange m.size count).2 = total
  rcases Nat.le_total stop first with h | h
  · rw [show min total stop - first = 0 by omega, Nat.max_eq_left h]
    rfl
  rcases Nat.le_total stop total with h' | h'
  · rw [Nat.max_eq_right h, Nat.min_eq_right h',
      show total - first = stop - first + (total - stop) by omega, ← List.range'_append_1,
      show first + (stop - first) = stop by omega]
  · rw [Nat.min_eq_left h', show total - max first stop = 0 by omega]
    exact List.append_nil _

/-- A run is the run as far as bar `stop` and then the rest. -/
theorem runProgram_eq_runTo (p : Program) (ctx : Context α) (count : Option Nat) (stop : Nat) :
    runProgram p ctx count =
      andThen (runTo p ctx count stop) (visits p (windowFrom ctx.market count stop)) := by
  rw [runProgram_eq, ← windowTo_append_windowFrom _ _ stop, visits_append]
  rfl

omit [Arith α] in
/-- Windows that start at one bar have the same bars before `n` if their markets do. -/
theorem windowTo_congr {m m' : Market α} {count count' : Option Nat} {n : Nat}
    (hbars : m.bars.toList.take n = m'.bars.toList.take n)
    (hstart : (barRange m.size count).1 = (barRange m'.size count').1) :
    windowTo m count n = windowTo m' count' n := by
  have hsize : min m.size n = min m'.size n := by
    have h := congrArg List.length hbars
    simp only [List.length_take, Array.length_toList] at h
    unfold Market.size
    omega
  have hto : ∀ (m : Market α) count, windowTo m count n =
      List.range' (barRange m.size count).1 (min m.size n - (barRange m.size count).1) :=
    fun _ _ => rfl
  rw [hto, hto, hstart, hsize]

end Runner

/-- **No look-ahead.** Before bar `n`, runs over two markets with the same first `n` bars cannot be
told apart: they have stopped in the same way or not at all, and their contexts differ in the market
only. What has been reached there is what the two runs go on from. -/
theorem no_look_ahead (p : Program) {m m' : Market α} {count count' : Option Nat} {n : Nat}
    (precision : Precision) (useCache : Bool)
    (hbars : m.bars.toList.take n = m'.bars.toList.take n)
    (hstart : (barRange m.size count).1 = (barRange m'.size count').1) :
    let ctx := Context.fresh m precision useCache
    let ctx' := Context.fresh m' precision useCache
    let before := Runner.runTo p ctx count n
    let before' := Runner.runTo p ctx' count' n
    (before.1 = before'.1 ∧ before'.2 = { before.2 with market := m' }) ∧
      Runner.runProgram p ctx count =
        Runner.andThen before (Runner.visits p (Runner.windowFrom m count n)) ∧
      Runner.runProgram p ctx' count' =
        Runner.andThen before' (Runner.visits p (Runner.windowFrom m' count' n)) := by
  intro ctx ctx' before before'
  have hbefore' : before' = Runner.visits p (Runner.windowTo m count n) ctx' :=
    congrArg (Runner.visits p · ctx') (Runner.windowTo_congr hbars hstart).symm
  have hlt : ∀ bar ∈ Runner.windowTo m count n, bar < n := by
    intro bar hbar
    have h := List.mem_range'_1.1 hbar
    omega
  have hvisits := visits_over p hbars hlt (show ctx.Over m m' ctx' from ⟨rfl, rfl⟩)
  refine ⟨?_, Runner.runProgram_eq_runTo p ctx count n, Runner.runProgram_eq_runTo p ctx' count' n⟩
  rw [hbefore']
  exact ⟨hvisits.1, hvisits.2.2⟩

/-- Runs over three and over two bars, that start at the second. -/
theorem no_look_ahead_three :
    let m : Market Float := ⟨#[⟨0, 1, 2, 3, 1, 2, 5⟩, ⟨1, 2, 2, 4, 2, 4, 5⟩, ⟨2, 3, 4, 4, 3, 3, 5⟩]⟩
    let m' : Market Float := ⟨#[⟨0, 1, 2, 3, 1, 2, 5⟩, ⟨1, 2, 2, 4, 2, 4, 5⟩]⟩
    let p : Program := ⟨[.eval (.study ⟨.atr, [.number (.number (.ofNat 2))], some 0⟩)],
      some (.single (.read (.price .close) (some .barIndex))), ⟨2, 0, 0, 1⟩⟩
    let before := Runner.runTo p (.fresh m .standard true) (some 2) 2
    let before' := Runner.runTo p (.fresh m' .standard true) (some 1) 2
    m.bars.toList.take 2 = m'.bars.toList.take 2 ∧
      (barRange m.size (some 2)).1 = (barRange m'.size (some 1)).1 ∧
      before.1 = before'.1 ∧ before'.2 = { before.2 with market := m' } := by
  intro m m' p before before'
  have hbars : m.bars.toList.take 2 = m'.bars.toList.take 2 := rfl
  have hstart : (barRange m.size (some 2)).1 = (barRange m'.size (some 1)).1 := rfl
  exact ⟨hbars, hstart, (no_look_ahead p .standard true hbars hstart).1⟩

end BarScript
