import Mathlib.Data.List.Induction
import BarScript.Proofs.Policies
import BarScript.Proofs.Sinks

/-!
# What the sinks hold

The outputs of a history of calls (`Outputs.drawn`), told by the history alone. `DrawHistory.offers`
lists what the calls give to one kind of sink, each call in view of the ones before it, which have
set the title and the pane; `Outputs.Tells` says that the sinks are what their policies keep of
these offers. `sink_contents` adds what the options of each point are and that later calls leave
earlier points alone. The outputs of a run are those of a history (`Runner.drawn_of_visits`).
-/

namespace BarScript

variable {α : Type}

/-! ## Calls -/

/-- What can be asked of the outputs at a bar. -/
inductive DrawCall (α : Type) where
  | indicator (title shortTitle : Option String) (overlay : Option Bool)
  | plot (value : α) (title : String) (options : Options α)
  | plotChar (value : α) (title : String) (options : Options α)
  | plotCandle (candle : Candle α) (title : String) (options : Options α)
  | plotBar (candle : Candle α) (title : String) (options : Options α)
  | fill (plot1 plot2 : String) (options : Options α)
  | hline (price : α) (title : String) (options : Options α)
  deriving DecidableEq, Repr

/-- Calls, each with the time of its bar, from the first on. -/
abbrev DrawHistory (α : Type) := List (Int × DrawCall α)

namespace Outputs

/-- The outputs after one more call. -/
def perform (o : Outputs α) : Int × DrawCall α → Outputs α
  | (_, .indicator title shortTitle overlay) => o.indicator title shortTitle overlay
  | (time, .plot value title options) => o.plot time value title options
  | (time, .plotChar value title options) => o.plotChar time value title options
  | (time, .plotCandle candle title options) => o.plotCandle time candle title options
  | (time, .plotBar candle title options) => o.plotBar time candle title options
  | (_, .fill plot1 plot2 options) => o.fill plot1 plot2 options
  | (_, .hline price title options) => o.hline price title options

/-- The outputs of a history. -/
def drawn (calls : DrawHistory α) : Outputs α := calls.foldl perform empty

theorem drawn_concat (calls : DrawHistory α) (c : Int × DrawCall α) :
    drawn (calls ++ [c]) = (drawn calls).perform c :=
  List.foldl_concat ..

end Outputs

namespace DrawHistory

/-- The title of the script: the last one that was set. -/
def title? (calls : DrawHistory α) : Option String :=
  (calls.filterMap fun
    | (_, .indicator title shortTitle _) => some ((title <|> shortTitle).getD Outputs.defaultTitle)
    | _ => none).getLast?

/-- The pane: the last one that was chosen. -/
def pane (calls : DrawHistory α) : Nat :=
  ((calls.filterMap fun
    | (_, .indicator _ _ overlay) => overlay.map fun inPrices => if inPrices then 0 else 1
    | _ => none).getLast?).getD 0

theorem title_drawn (calls : DrawHistory α) : (Outputs.drawn calls).title = calls.title? := by
  induction calls using List.reverseRecOn with
  | nil => rfl
  | append_singleton calls c ih =>
    rw [Outputs.drawn_concat, title?, List.filterMap_append, List.getLast?_append]
    obtain ⟨time, call⟩ := c
    cases call with
    | indicator title shortTitle overlay => rfl
    | fill plot1 plot2 options =>
      rw [Outputs.perform, Outputs.fill_eq]
      exact ih
    | _ => exact ih

theorem pane_drawn (calls : DrawHistory α) : (Outputs.drawn calls).pane = calls.pane := by
  induction calls using List.reverseRecOn with
  | nil => rfl
  | append_singleton calls c ih =>
    rw [Outputs.drawn_concat, pane, List.filterMap_append, List.getLast?_append]
    obtain ⟨time, call⟩ := c
    cases call with
    | indicator title shortTitle overlay =>
      rcases overlay with _ | _ | _
      · exact ih
      · rfl
      · rfl
    | fill plot1 plot2 options =>
      rw [Outputs.perform, Outputs.fill_eq]
      exact ih
    | _ => exact ih

/-- Options with the title of the script as group. -/
def grouped (before : DrawHistory α) (options : Options α) : Options α :=
  match before.title? with
  | some title => options.insert "group" (.text title)
  | none => options

theorem grouped_drawn (before : DrawHistory α) (options : Options α) :
    (Outputs.drawn before).grouped options = before.grouped options := by
  rw [Outputs.grouped, title_drawn]
  rfl

section

variable {μ : Type}

/-- What calls give that come after `before`. -/
def offersAfter (offer? : DrawHistory α → Int × DrawCall α → Option μ) (before : DrawHistory α) :
    DrawHistory α → List μ
  | [] => []
  | c :: later => (offer? before c).toList ++ offersAfter offer? (before ++ [c]) later

/-- What the calls of a history give, each in view of the calls before it. -/
def offers (offer? : DrawHistory α → Int × DrawCall α → Option μ) (calls : DrawHistory α) :
    List μ :=
  offersAfter offer? [] calls

variable (offer? : DrawHistory α → Int × DrawCall α → Option μ)

theorem offersAfter_append (before calls later : DrawHistory α) :
    offersAfter offer? before (calls ++ later) =
      offersAfter offer? before calls ++ offersAfter offer? (before ++ calls) later := by
  induction calls generalizing before with
  | nil => rw [List.append_nil]; rfl
  | cons c calls ih =>
    rw [List.cons_append, offersAfter, ih, offersAfter, List.append_assoc, List.append_assoc,
      List.singleton_append]

theorem offers_append (calls later : DrawHistory α) :
    offers offer? (calls ++ later) = offers offer? calls ++ offersAfter offer? calls later :=
  offersAfter_append offer? [] calls later

theorem offers_concat (calls : DrawHistory α) (c : Int × DrawCall α) :
    offers offer? (calls ++ [c]) = offers offer? calls ++ (offer? calls c).toList := by
  rw [offers_append, offersAfter, offersAfter, List.append_nil]

end

/-- What a call gives to the plots. -/
def plotOffer? (before : DrawHistory α) : Int × DrawCall α → Option (Offer α (Point α))
  | (time, .plot value title options) =>
    some ⟨title, before.grouped options, before.pane, time, value, before.grouped options⟩
  | (time, .plotChar value title options) =>
    some ⟨title, options, before.pane, time, value, options.insert "style" (.text "char")⟩
  | _ => none

/-- Four prices for a sink of candles or of bars. -/
def pricesOffer (before : DrawHistory α) (time : Int) (candle : Candle α) (title : String)
    (options : Options α) : Offer α (CandlePoint α) :=
  ⟨title, before.grouped options, before.pane, time, candle, before.pane, before.grouped options⟩

/-- What a call gives to the candles. -/
def candleOffer? (before : DrawHistory α) : Int × DrawCall α → Option (Offer α (CandlePoint α))
  | (time, .plotCandle candle title options) => some (before.pricesOffer time candle title options)
  | _ => none

/-- What a call gives to the bars. -/
def barOffer? (before : DrawHistory α) : Int × DrawCall α → Option (Offer α (CandlePoint α))
  | (time, .plotBar candle title options) => some (before.pricesOffer time candle title options)
  | _ => none

/-- The fill that a call gives. -/
def fillOffer? (_before : DrawHistory α) : Int × DrawCall α → Option (Fill α)
  | (_, .fill plot1 plot2 options) => some ⟨plot1, plot2, options⟩
  | _ => none

/-- The level that a call gives. -/
def levelOffer? (before : DrawHistory α) : Int × DrawCall α → Option (Level α)
  | (_, .hline price title options) => some ⟨title, price, options, before.pane⟩
  | _ => none

end DrawHistory

/-! ## Histories -/

open DrawHistory

section

variable {μ σ : Type}

/-- **A history** is kept if each call is entered. -/
theorem kept_drawn (calls : DrawHistory α) (P : Policy μ σ) (sinks : Outputs α → List σ)
    (offer? : DrawHistory α → Int × DrawCall α → Option μ) (start : sinks .empty = [])
    (step : ∀ before c, sinks ((Outputs.drawn before).perform c) =
      match offer? before c with
      | some m => P.enter m (sinks (Outputs.drawn before))
      | none => sinks (Outputs.drawn before)) :
    Kept P (offers offer? calls) (sinks (Outputs.drawn calls)) := by
  induction calls using List.reverseRecOn with
  | nil =>
    show Kept P [] (sinks .empty)
    rw [start]
    exact .nil
  | append_singleton calls c ih =>
    rw [Outputs.drawn_concat, step, offers_concat]
    cases offer? calls c with
    | some m => exact ih.enter m
    | none =>
      rw [Option.toList_none, List.append_nil]
      exact ih

end

/-- What the outputs hold of a history: what their lists of sinks keep of the calls. -/
structure Outputs.Tells (o : Outputs α) (calls : DrawHistory α) : Prop where
  title : o.title = calls.title?
  pane : o.pane = calls.pane
  plots : Kept Policy.appending (offers plotOffer? calls) o.plots
  candles : Kept Policy.appending (offers candleOffer? calls) o.candles
  bars : Kept Policy.appending (offers barOffer? calls) o.bars
  fills : Kept Policy.firstWins (offers fillOffer? calls) o.fills
  levels : Kept Policy.lastWins (offers levelOffer? calls) o.levels

theorem tells_drawn (calls : DrawHistory α) : (Outputs.drawn calls).Tells calls where
  title := title_drawn calls
  pane := pane_drawn calls
  plots := kept_drawn calls _ (·.plots) _ rfl fun before ⟨time, call⟩ => by
    cases call with
    | plot value title options =>
      dsimp only [Outputs.perform, Outputs.plot, plotOffer?]
      rw [← Sink.record_eq, grouped_drawn, pane_drawn]
    | plotChar value title options =>
      dsimp only [Outputs.perform, Outputs.plotChar, plotOffer?]
      rw [← Sink.record_eq, pane_drawn]
    | fill plot1 plot2 options =>
      rw [Outputs.perform, Outputs.fill_eq]
      rfl
    | _ => rfl
  candles := kept_drawn calls _ (·.candles) _ rfl fun before ⟨time, call⟩ => by
    cases call with
    | plotCandle candle title options =>
      dsimp only [Outputs.perform, Outputs.plotCandle, candleOffer?]
      rw [← Sink.record_eq, grouped_drawn, pane_drawn]
      rfl
    | fill plot1 plot2 options =>
      rw [Outputs.perform, Outputs.fill_eq]
      rfl
    | _ => rfl
  bars := kept_drawn calls _ (·.bars) _ rfl fun before ⟨time, call⟩ => by
    cases call with
    | plotBar candle title options =>
      dsimp only [Outputs.perform, Outputs.plotBar, barOffer?]
      rw [← Sink.record_eq, grouped_drawn, pane_drawn]
      rfl
    | fill plot1 plot2 options =>
      rw [Outputs.perform, Outputs.fill_eq]
      rfl
    | _ => rfl
  fills := kept_drawn calls _ (·.fills) _ rfl fun before ⟨time, call⟩ => by
    cases call with
    | fill plot1 plot2 options => exact Outputs.fills_fill _ ⟨plot1, plot2, options⟩
    | _ => rfl
  levels := kept_drawn calls _ (·.levels) _ rfl fun before ⟨time, call⟩ => by
    cases call with
    | hline price title options =>
      dsimp only [Outputs.perform, Outputs.hline, levelOffer?]
      rw [← Outputs.setLevel_eq, pane_drawn]
    | fill plot1 plot2 options =>
      rw [Outputs.perform, Outputs.fill_eq]
      rfl
    | _ => rfl

/-! ## Points -/

/-- The options `told` are the given ones with the title of the script, if it has one, as group. -/
structure Grouped (before : DrawHistory α) (given told : Options α) : Prop where
  group : ∀ title, before.title? = some title → told.find? "group" = some (.text title)
  rest : ∀ k, k ≠ "group" ∨ before.title? = none → told.find? k = given.find? k

/-- The options `told` are the given ones with the style of a character. -/
structure Styled (given told : Options α) : Prop where
  style : told.find? "style" = some (.text "char")
  rest : ∀ k, k ≠ "style" → told.find? k = given.find? k

theorem grouped_options (before : DrawHistory α) (options : Options α) :
    Grouped before options (before.grouped options) := by
  unfold DrawHistory.grouped
  cases htitle : before.title? with
  | none => exact ⟨fun _ h => (nomatch htitle.symm.trans h), fun _ _ => rfl⟩
  | some title =>
    refine ⟨fun t h => ?_, fun k hk => ?_⟩
    · cases htitle.symm.trans h
      exact Assoc.find?_insert_self ..
    · exact Assoc.find?_insert_of_ne _ (hk.resolve_right fun h => nomatch htitle.symm.trans h) _

theorem styled_options (options : Options α) :
    Styled options (options.insert "style" (.text "char")) :=
  ⟨Assoc.find?_insert_self .., fun _ hk => Assoc.find?_insert_of_ne _ hk _⟩

section

variable {ρ : Type}

/-- The sink of the title has the point next to those of the calls `ms`. -/
def Sink.HasAfter (ms : List (Offer α ρ)) (title : String) (point : ρ) (ss : List (Sink α ρ)) :
    Prop :=
  ∃ s ∈ ss, s.title = title ∧ s.data[(ms.filter (·.title = title)).length]? = some point

theorem Kept.hasAfter {ms more : List (Offer α ρ)} {m : Offer α ρ} {ss : List (Sink α ρ)}
    (h : Kept Policy.appending (ms ++ m :: more) ss) : Sink.HasAfter ms m.title m.point ss := by
  obtain ⟨s, hs, htitle⟩ := h.exists_entry (List.mem_append_right _ (List.mem_cons_self ..))
  obtain ⟨hdata, -⟩ := h.entries s hs
  refine ⟨s, hs, htitle, ?_⟩
  have hmine : (m :: more).filter (·.title = m.title) = m :: more.filter (·.title = m.title) :=
    List.filter_cons_of_pos (decide_eq_true rfl)
  rw [htitle] at hdata
  change s.data.toList = ((ms ++ m :: more).filter (·.title = m.title)).map (·.point) at hdata
  rw [← Array.getElem?_toList, hdata, List.filter_append, hmine, List.getElem?_map,
    List.getElem?_append_right (Nat.le_refl _), Nat.sub_self]
  rfl

/-- A sink that has got more points. -/
structure Sink.GrowsTo (s s' : Sink α ρ) : Prop where
  title : s'.title = s.title
  options : s'.options = s.options
  pane : s'.pane = s.pane
  data : s.data.toList <+: s'.data.toList

/-- After more calls a sink has got more points. -/
theorem Kept.growsTo {ms more : List (Offer α ρ)} {ss ss' : List (Sink α ρ)}
    (h : Kept Policy.appending ms ss) (h' : Kept Policy.appending (ms ++ more) ss')
    {s : Sink α ρ} (hs : s ∈ ss) : ∃ s' ∈ ss', s.GrowsTo s' := by
  obtain ⟨hdata, first, hfirst, hoptions, hpane⟩ := h.entries s hs
  obtain ⟨s', hs', htitle, hdata', first', hfirst', hoptions', hpane'⟩ := h.successor h' hs
  rw [List.head?_append, hfirst, Option.some_or, Option.some_inj] at hfirst'
  subst hfirst'
  refine ⟨s', hs', htitle, hoptions'.trans hoptions.symm, hpane'.trans hpane.symm, ?_⟩
  rw [hdata, hdata', List.map_append]
  exact List.prefix_append _ _

end

/-- What the outputs hold of a call that was made after `before`: the point of a plot, of a
character, of a candle or of a bar. -/
def DrawCall.Told (o : Outputs α) (before : DrawHistory α) (time : Int) : DrawCall α → Prop
  | .plot value title options => ∃ told, Grouped before options told ∧
    Sink.HasAfter (offers plotOffer? before) title ⟨time, value, told⟩ o.plots
  | .plotChar value title options => ∃ told, Styled options told ∧
    Sink.HasAfter (offers plotOffer? before) title ⟨time, value, told⟩ o.plots
  | .plotCandle candle title options => ∃ told, Grouped before options told ∧
    Sink.HasAfter (offers candleOffer? before) title ⟨time, candle, before.pane, told⟩ o.candles
  | .plotBar candle title options => ∃ told, Grouped before options told ∧
    Sink.HasAfter (offers barOffer? before) title ⟨time, candle, before.pane, told⟩ o.bars
  | _ => True

/-- What a call in the middle of a history offers has its point. -/
theorem Kept.hasAfter_call {ρ : Type}
    {offer? : DrawHistory α → Int × DrawCall α → Option (Offer α ρ)} {before later : DrawHistory α}
    {c : Int × DrawCall α} {m : Offer α ρ} {ss : List (Sink α ρ)}
    (h : Kept Policy.appending (offers offer? (before ++ c :: later)) ss)
    (hc : offer? before c = some m) :
    Sink.HasAfter (offers offer? before) m.title m.point ss := by
  rw [offers_append, offersAfter, hc] at h
  exact h.hasAfter

/-- **A call is told** by the outputs of every history that it is part of. -/
theorem told_drawn (before later : DrawHistory α) (time : Int) (call : DrawCall α) :
    call.Told (Outputs.drawn (before ++ (time, call) :: later)) before time := by
  have htells := tells_drawn (before ++ (time, call) :: later)
  have hgrouped := grouped_options before
  cases call with
  | plot value title options => exact ⟨_, hgrouped options, htells.plots.hasAfter_call rfl⟩
  | plotChar value title options =>
    exact ⟨_, styled_options options, htells.plots.hasAfter_call rfl⟩
  | plotCandle candle title options =>
    exact ⟨_, hgrouped options, htells.candles.hasAfter_call rfl⟩
  | plotBar candle title options => exact ⟨_, hgrouped options, htells.bars.hasAfter_call rfl⟩
  | _ => exact trivial

/-- Outputs after more calls: all points are still there, every sink has kept its options and its
pane, the fills are the same ones, and the levels have kept their panes. -/
structure Outputs.Extends (o o' : Outputs α) : Prop where
  plots : ∀ s ∈ o.plots, ∃ s' ∈ o'.plots, s.GrowsTo s'
  candles : ∀ s ∈ o.candles, ∃ s' ∈ o'.candles, s.GrowsTo s'
  bars : ∀ s ∈ o.bars, ∃ s' ∈ o'.bars, s.GrowsTo s'
  fills : ∀ f ∈ o.fills, f ∈ o'.fills
  levels : ∀ l ∈ o.levels, ∃ l' ∈ o'.levels, l'.title = l.title ∧ l'.pane = l.pane

theorem extends_drawn (calls later : DrawHistory α) :
    (Outputs.drawn calls).Extends (Outputs.drawn (calls ++ later)) := by
  have h := tells_drawn calls
  obtain ⟨-, -, plots', candles', bars', fills', levels'⟩ := tells_drawn (calls ++ later)
  rw [offers_append] at plots' candles' bars' fills' levels'
  refine ⟨fun s => h.plots.growsTo plots', fun s => h.candles.growsTo candles',
    fun s => h.bars.growsTo bars', fun f hf => ?_, fun l hl => ?_⟩
  · have hfirst : (List.filter _ _).head? = some f := h.fills.entries f hf
    obtain ⟨f', hf', -, hentry⟩ := h.fills.successor fills' hf
    have hfirst' : (List.filter _ _ ++ List.filter _ _).head? = some f' := hentry
    rw [List.head?_append, hfirst, Option.some_or, Option.some_inj] at hfirst'
    exact hfirst' ▸ hf'
  · obtain ⟨⟨first, hfirst, hpane⟩, -⟩ := h.levels.entries l hl
    obtain ⟨l', hl', htitle, ⟨first', hfirst', hpane'⟩, -⟩ := h.levels.successor levels' hl
    rw [List.head?_append, hfirst, Option.some_or, Option.some_inj] at hfirst'
    exact ⟨l', hl', htitle, by rw [hpane', ← hfirst', hpane]⟩

/-- **What the sinks hold.** The outputs of any history of calls at any times are told by the
history. Every title has one sink, in the order of first use; a sink of plots, candles or bars has
the points of all its calls, in their order, and the options and the pane of the first; a fill is
the first of its plot, and a level has the price and the options of its last call and the pane of
its first. Every point carries the title that the script had last been given as its group, and a
character its style. What has been drawn stays when calls follow. -/
theorem sink_contents (calls : DrawHistory α) :
    (Outputs.drawn calls).Tells calls ∧
    (∀ before time call later, calls = before ++ (time, call) :: later →
      call.Told (Outputs.drawn calls) before time) ∧
    ∀ later, (Outputs.drawn calls).Extends (Outputs.drawn (calls ++ later)) := by
  refine ⟨tells_drawn calls, fun before time call later h => ?_, extends_drawn calls⟩
  rw [h]
  exact told_drawn before later time call

/-- The script is named, and moved to a pane of its own, between two points of a plot. -/
theorem sink_contents_renamed :
    let before : DrawHistory Nat :=
      [(1, .plotChar 5 "a" ∅), (1, .hline 30 "h" ∅), (2, .indicator (some "t") none (some false))]
    let later : DrawHistory Nat := [(2, .hline 40 "h" ∅)]
    let calls := before ++ (2, .plot 6 "a" ∅) :: later
    (DrawCall.plot 6 "a" ∅).Told (Outputs.drawn calls) before 2 ∧
      (Outputs.drawn calls).plots = [⟨"a", #[⟨1, 5, ⟨[("style", .text "char")]⟩⟩,
        ⟨2, 6, ⟨[("group", .text "t")]⟩⟩], ∅, 0⟩] ∧
      (Outputs.drawn calls).levels = [⟨"h", 40, ∅, 0⟩] := by
  intro before later calls
  exact ⟨(sink_contents calls).2.1 before 2 _ later rfl, rfl, rfl⟩

/-! ## Runs -/

section

variable [Arith α] {c c' ctx ctx' : Context α} {plotted plotted' : Plotted α}

/-- An instruction makes one call at the time of the bar, or none. -/
theorem Op.Draws.exists_calls {o : Op} {outputs : Outputs α}
    (h : o.Draws c plotted outputs plotted') :
    ∃ calls : DrawHistory α, outputs = calls.foldl Outputs.perform c.outputs := by
  cases h with
  | @plot _ title _ char v _ os =>
    cases char with
    | false => exact ⟨[(c.now, .plot v title os)], rfl⟩
    | true => exact ⟨[(c.now, .plotChar v title os)], rfl⟩
  | @candle _ _ _ _ title _ bar v _ os =>
    cases bar with
    | false => exact ⟨[(c.now, .plotCandle v title os)], rfl⟩
    | true => exact ⟨[(c.now, .plotBar v title os)], rfl⟩
  | @fill plot1 plot2 _ os => exact ⟨[(c.now, .fill plot1 plot2 os)], rfl⟩
  | @hline _ title _ x os => exact ⟨[(c.now, .hline x title os)], rfl⟩
  | @indicator title shortTitle overlay =>
    exact ⟨[(c.now, .indicator title shortTitle overlay)], rfl⟩
  | nothing => exact ⟨[], rfl⟩

theorem Op.execAll_calls {os : List Op} (h : Op.execAll os plotted c = .ok plotted' c') :
    ∃ calls : DrawHistory α, c'.outputs = calls.foldl Outputs.perform c.outputs := by
  induction os generalizing plotted c with
  | nil =>
    cases h
    exact ⟨[], rfl⟩
  | cons o os ih =>
    obtain ⟨plotted₁, c₁, ho, hos⟩ := eval_bind_ok h
    obtain ⟨first, hfirst⟩ := (Op.exec_draws ho).exists_calls
    obtain ⟨rest, hrest⟩ := ih hos
    exact ⟨first ++ rest, by rw [hrest, hfirst, List.foldl_append]⟩

/-- The bars of a run go on with the history of its outputs. -/
theorem Runner.visits_calls {p : Program} {bars : List Nat}
    (h : Runner.visits p bars ctx = (.ok (), ctx')) :
    ∃ calls : DrawHistory α, ctx'.outputs = calls.foldl Outputs.perform ctx.outputs := by
  induction bars generalizing ctx with
  | nil =>
    cases h
    exact ⟨[], rfl⟩
  | cons bar bars ih =>
    obtain ⟨out, c, results, hstep, -, hrest, -⟩ := Runner.visits_cons h
    obtain ⟨plotted, c₁, hexec, houtput⟩ := eval_bind_ok hstep
    obtain ⟨first, hfirst⟩ := Op.execAll_calls hexec
    obtain ⟨rest, hrest⟩ := ih hrest
    have hbar : c.outputs = first.foldl Outputs.perform ctx.outputs :=
      (Program.output_outputs houtput).trans hfirst
    refine ⟨first ++ rest, ?_⟩
    rw [hrest, List.foldl_append, ← hbar]
    rfl

/-- **The outputs of a run** on a context without outputs are those of a history. -/
theorem Runner.drawn_of_visits {p : Program} {bars : List Nat}
    (h : Runner.visits p bars ctx = (.ok (), ctx')) (hfresh : ctx.outputs = .empty) :
    ∃ calls : DrawHistory α, ctx'.outputs = .drawn calls ∧ ctx'.outputs.Tells calls := by
  obtain ⟨calls, hcalls⟩ := Runner.visits_calls h
  have hdrawn : ctx'.outputs = .drawn calls := by
    rw [hcalls, hfresh]
    rfl
  exact ⟨calls, hdrawn, hdrawn ▸ tells_drawn calls⟩

end

end BarScript
