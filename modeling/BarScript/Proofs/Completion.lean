import BarScript.Proofs.InRange
import BarScript.Proofs.Offsets

/-!
# Compiled scripts complete

A step of a compiled program fails for an offset below zero only (`Program.step_asks`), and the
results take in what it gives, since the names of its outputs are the same at every bar
(`Program.step_names`). So a run on a fresh context has a row for every bar of its window, or stops
at the bar at which such an offset was asked for (`Runner.Ends`, `script_ends`). A script whose
offsets are numbers that are not below zero completes.
-/

namespace BarScript

variable {α : Type} [Arith α]

/-- However a step ends, the results are those that it started with. -/
theorem Program.step_results (p : Program) (c : Context α) :
    match p.step c with
    | .ok _ c' => c'.results = c.results
    | .error _ c' => c'.results = c.results := by
  have htouched := p.step_touched c
  cases h : p.step c with
  | ok out c' => rw [h] at htouched; exact htouched.results
  | error failure c' => rw [h] at htouched; exact htouched.results

/-- A run enters its bars one after the other, on one market. -/
theorem Runner.entered_snapshots {p : Program} {bars : List Nat} {ctx ctx' : Context α}
    (h : visits p bars ctx = (.ok (), ctx')) :
    (entered p bars ctx).map Context.snapshot = bars.map (Snapshot.mk ctx.market) := by
  induction bars generalizing ctx with
  | nil => rfl
  | cons bar bars ih =>
    obtain ⟨out, c, results, hstep, -, hrest, hentered⟩ := visits_cons h
    have htouched := p.step_touched (Engine.enter ctx bar)
    rw [hstep] at htouched
    have hmarket : c.market = ctx.market := htouched.market
    rw [hentered, List.map_cons, List.map_cons, ih hrest]
    show _ :: bars.map (Snapshot.mk c.market) = _
    rw [hmarket]
    rfl

/-- The context has collected the outputs of `n` bars, all of them with the names of the program. -/
def Program.Collected (p : Program) (n : Nat) (c : Context α) : Prop :=
  ∃ outputs, c.results.Holds outputs ∧ outputs.length = n ∧ ∀ o ∈ outputs, o.names? = p.names?

namespace Program.Collected

variable {p : Program} {n : Nat} {c c' : Context α}

theorem start (h : c.results = .empty) : p.Collected 0 c :=
  ⟨[], h ▸ Results.empty_holds, rfl, List.forall_mem_nil _⟩

theorem shaped (h : p.Collected n c) : c.results.Shaped (p.names?.map List.eraseDups) n := by
  obtain ⟨outputs, hholds, rfl, hnames⟩ := h
  exact hholds.shaped hnames

theorem of_results (h : p.Collected n c) (hresults : c'.results = c.results) :
    p.Collected n c' := by
  obtain ⟨outputs, hholds, hlength, hnames⟩ := h
  exact ⟨outputs, hresults ▸ hholds, hlength, hnames⟩

/-- **An output with the names of the program is taken in.** -/
theorem push (h : p.Collected n c) {out : StepOutput α} (hout : out.names? = p.names?)
    (bar : Nat) : ∃ results, c.results.push bar out = .ok results ∧
      ∀ c', c'.results = results → p.Collected (n + 1) c' := by
  obtain ⟨outputs, hholds, rfl, hnames⟩ := h
  have hshape : ∀ o ∈ outputs, o.isNamed = out.isNamed := by
    have hnamed : ∀ o : StepOutput α, o.isNamed = o.names?.isSome := fun o => by cases o <;> rfl
    intro o ho
    rw [hnamed, hnamed, hnames o ho, hout]
  have hpush := Results.push_tabulate hshape bar
  rw [← hholds.eq_tabulate] at hpush
  refine ⟨_, hpush, fun c' hc' => ⟨outputs ++ [out], hc' ▸ hholds.push hpush, by simp, ?_⟩⟩
  exact List.forall_mem_append.2 ⟨hnames, List.forall_mem_singleton.2 hout⟩

/-- **One bar**: its output is collected, or an offset below zero is refused. -/
theorem bar (h : p.Collected n c) (bar : Nat) :
    (∃ c', Runner.visits p [bar] c = (.ok (), c') ∧ p.Collected (n + 1) c') ∨
      ∃ c' asked a, Runner.visits p [bar] c = (.error (a.refusal bar), c') ∧
        p.asks (Engine.enter c bar) = asked ++ [a] ∧ a.Negative ∧ p.Collected n c' := by
  have henter : p.Collected n (Engine.enter c bar) := h.of_results rfl
  have hresults := p.step_results (Engine.enter c bar)
  rw [Runner.visits_bar]
  cases hstep : p.step (Engine.enter c bar) with
  | ok out c₁ =>
    rw [hstep] at hresults
    obtain ⟨results, hpush, hnext⟩ :=
      (henter.of_results hresults).push (p.step_names _ _ _ hstep) c₁.bar
    dsimp only
    rw [Engine.collect_ok hpush]
    exact .inl ⟨_, rfl, hnext _ rfl⟩
  | error failure c₁ =>
    rw [hstep] at hresults
    obtain ⟨asked, a, hasked, -, hnegative, rfl⟩ := p.step_asks.error hstep
    exact .inr ⟨c₁, asked, a, rfl, hasked, hnegative, henter.of_results hresults⟩

/-- **A list of bars**: the outputs of all of them have been collected, if nothing has failed. -/
theorem visits (h : p.Collected n c) {bars : List Nat}
    (hvisits : Runner.visits p bars c = (.ok (), c')) : p.Collected (n + bars.length) c' := by
  induction bars generalizing n c with
  | nil => cases hvisits; exact h
  | cons bar bars ih =>
    rw [← List.singleton_append, Runner.visits_append] at hvisits
    rcases h.bar bar with ⟨c₁, hbar, hnext⟩ | ⟨c₁, asked, a, hbar, -⟩
    · rw [hbar] at hvisits
      have hrest := ih hnext hvisits
      rwa [Nat.add_assoc, Nat.add_comm 1] at hrest
    · rw [hbar] at hvisits
      cases hvisits

end Program.Collected

/-! ## Runs -/

omit [Arith α] in
theorem Runner.lt_size_of_mem_window {m : Market α} {count : Option Nat} {bar : Nat}
    (h : bar ∈ window m count) : bar < m.size := by
  unfold window barRange at h
  have hmem := List.mem_range'_1.1 h
  omega

/-- How a run of the program of some statements ends on a fresh context: it completes with a row
for every bar of its window, or stops at the bar in whose step the last offset that was asked for
is below zero. -/
inductive Runner.Ends (r : Runner α) (ss : List Statement) (p : Program) (count : Option Nat) :
    Except Failure Unit → Context α → Prop
  | completed {ctx : Context α}
      (results : ctx.results.Shaped (columnNames? ss) (window r.market count).length) :
      Ends r ss p count (.ok ()) ctx
  | refused {ctx c : Context α} {before rest : List Nat} {bar : Nat} {asked : List (Ask α)}
      {a : Ask α} (bars : window r.market count = before ++ bar :: rest)
      (visited : visits p before r.context = (.ok (), c))
      (asks : p.asks (Engine.enter c bar) = asked ++ [a]) (negative : a.Negative)
      (offset : ∃ st ∈ ss, ∃ o, st.HasOffset o ∧ ∃ s s', Resolve.expr o s = .ok (a.offset, s'))
      (results : ctx.results.Shaped (columnNames? ss) before.length) :
      Ends r ss p count (.error (a.refusal bar)) ctx

theorem Runner.Ends.completes {r : Runner α} {ss : List Statement} {p : Program}
    {count : Option Nat} {outcome : Except Failure Unit} {ctx : Context α}
    (h : r.Ends ss p count outcome ctx) (hoffsets : ∀ st ∈ ss, ∀ o, ¬ st.HasOffset o) :
    outcome = .ok () := by
  cases h with
  | completed results => rfl
  | refused bars visited asks negative offset results =>
    obtain ⟨st, hst, o, ho, -⟩ := offset
    exact absurd ho (hoffsets st hst o)

/-- An offset that is a number is asked for with this number. -/
theorem Program.asks_number {E : Expr → Prop} {p : Program} {ctx : Context α} {a : Ask α}
    (hspots : ∀ pl ∈ p.spots, pl.Sound E) (ha : a ∈ p.asks ctx)
    (hnumbers : ∀ o, E o → ∃ l : Literal, o = .number l ∧ ¬ (l.value : α) < 0) :
    ¬ a.Negative := by
  obtain ⟨hmem, d, d', -, heval⟩ := p.step_asks.origin ctx a ha
  obtain ⟨o, s, s', ho, hresolved⟩ := hspots _ hmem
  obtain ⟨l, rfl, hl⟩ := hnumbers o ho
  obtain ⟨offset, value⟩ := a
  rw [Resolve.expr] at hresolved
  obtain rfl : Node.number l = offset := by
    injection hresolved with hresolved
    exact congrArg Prod.fst hresolved
  dsimp only at heval
  rw [Node.eval] at heval
  obtain rfl : (l.value : α) = value := by
    injection heval
  exact fun h => hl h.2

theorem compileStatements_of_compile {source : String} {ss : List Statement} {p : Program}
    (hparse : parse source = .ok ss) (hcompile : compile source = .ok p) :
    compileStatements ss = .ok p := by
  unfold compile at hcompile
  rw [hparse] at hcompile
  dsimp only at hcompile
  split at hcompile
  · cases hcompile
  · rename_i hp
    cases hcompile
    exact hp

/-- **The visits of a run** complete, or one of them is refused. -/
theorem Runner.ends_visits {r : Runner α} {ss : List Statement} {p : Program} {count : Option Nat}
    (hspots : ∀ pl ∈ p.spots, pl.Sound fun o => ∃ st ∈ ss, st.HasOffset o)
    (hnames : p.names?.map List.eraseDups = columnNames? ss) :
    r.Ends ss p count (visits p (window r.market count) r.context).1
      (visits p (window r.market count) r.context).2 := by
  have hstart : p.Collected 0 r.context := .start rfl
  have shaped {n : Nat} {c : Context α} (h : p.Collected (0 + n) c) :
      c.results.Shaped (columnNames? ss) n := by
    rw [Nat.zero_add] at h
    exact hnames ▸ h.shaped
  cases hvisits : visits p (window r.market count) r.context with
  | mk outcome ctx =>
    cases outcome with
    | ok _ => exact .completed (shaped (hstart.visits hvisits))
    | error failure =>
      obtain ⟨before, bar, rest, c, hbars, hbefore, hbar⟩ := visits_error hvisits
      have hcollected := hstart.visits hbefore
      rcases hcollected.bar bar with ⟨c', hok, -⟩ | ⟨c', asked, a, hfail, hasked, ha, hkept⟩
      · cases hok.symm.trans hbar
      · cases hfail.symm.trans hbar
        have hmem : a ∈ p.asks (Engine.enter c bar) := by rw [hasked]; simp
        obtain ⟨o, s, s', ⟨st, hst, ho⟩, hresolved⟩ :=
          hspots _ (p.step_asks.origin _ a hmem).1
        exact .refused hbars hbefore hasked ha ⟨st, hst, o, ho, s, s', hresolved⟩ (shaped hkept)

/-- **The end of a run** of a compiled script on a fresh context. It completes with a row for every
bar of the window, in the columns that the script says, or it stops at a bar whose step has asked
for an offset below zero, which stands in the script. The results never change their form, and no
index is out of range. A script whose offsets are numbers that are not below zero completes. -/
theorem script_ends {source : String} {ss : List Statement} {p : Program}
    (hparse : parse source = .ok ss) (hcompile : compile source = .ok p) (bars : List (Bar α))
    (useCache : Bool) (precision : Precision) (count : Option Nat) :
    let r := Runner.configured bars useCache precision
    let run := r.runIn r.context (some source) count
    r.Ends ss p count run.1 run.2.1 ∧ (∀ bar, run.1 ≠ .error (.resultShape bar)) ∧
      p.InRange α ∧
      (∀ bar ∈ Runner.window r.market count, ∀ q : Price,
        ((⟨r.market, bar⟩ : Snapshot α).price q).size = bar + 1) ∧
      ((∀ st ∈ ss, ∀ o, st.HasOffset o → ∃ l : Literal, o = .number l ∧ ¬ (l.value : α) < 0) →
        run.1 = .ok ()) := by
  intro r run
  have hstatements := compileStatements_of_compile hparse hcompile
  have hspots := compileStatements_spots hstatements
  have hends : r.Ends ss p count run.1 run.2.1 := by
    have hvisits := Runner.visits_of_configured hcompile bars useCache precision count
    have hends : r.Ends ss p count _ _ :=
      Runner.ends_visits hspots (compileStatements_names hstatements (parse_keys hparse))
    rwa [hvisits] at hends
  refine ⟨hends, fun bar hshape => ?_, Program.inRange hspots, fun bar hbar q => ?_,
    fun hnumbers => ?_⟩
  · rw [hshape] at hends
    generalize hfailure : Failure.resultShape bar = failure at hends
    cases hends
    cases hfailure
  · exact Snapshot.size_view (Runner.lt_size_of_mem_window hbar) _
  · generalize run.1 = outcome at hends ⊢
    cases hends with
    | completed results => rfl
    | @refused _ c _ _ bar _ a _ _ asks negative _ _ =>
      have ha : a ∈ p.asks (Engine.enter c bar) := by rw [asks]; simp
      refine absurd negative (Program.asks_number hspots ha ?_)
      rintro o ⟨st, hst, ho⟩
      exact hnumbers st hst o ho

/-- Two plots with one title, and a deviation. -/
def plottedSource : String :=
  "plot(close[1], \"late\")\nplot(ta.stdev(close, 2), \"spread\")\nplot(open[2], \"late\")"

def plottedStatements : List Statement :=
  [.expr (.call ⟨"plot", [⟨none, .history (.name "close" 5) (.number (.ofNat 1)) 10, 5⟩,
      ⟨none, .text "late", 15⟩], 0⟩),
    .expr (.call ⟨"plot", [⟨none, .call ⟨"ta.stdev", [⟨none, .name "close" 37, 37⟩,
      ⟨none, .number (.ofNat 2), 44⟩], 28⟩, 28⟩, ⟨none, .text "spread", 48⟩], 23⟩),
    .expr (.call ⟨"plot", [⟨none, .history (.name "open" 63) (.number (.ofNat 2)) 67, 63⟩,
      ⟨none, .text "late", 72⟩], 58⟩)]

def plottedProgram : Program :=
  let read (p : Price) (k : Nat) : Node := .read (.price p) (some (.number (.ofNat k)))
  let deviation : Node := .study ⟨.stdev,
    [.series (.price .close), .number (.number (.ofNat 2)), .number (.number (.ofNat 1))], none⟩
  ⟨[.draw (.plot (read .close 1) "late" [] false), .draw (.plot deviation "spread" [] false),
    .draw (.plot (read .opening 2) "late" [] false)], none, ⟨3, 0, 0, 0⟩⟩

theorem plottedStatements_offsets (o : Expr) :
    (∃ st ∈ plottedStatements, st.HasOffset o) ↔
      o = .number (.ofNat 1) ∨ o = .number (.ofNat 2) := by
  simp [plottedStatements, Statement.HasOffset, Statement.exprs]

theorem script_ends_plotted :
    let bars : List (Bar Float) := [⟨0, 1, 2, 2, 2, 2, 5⟩, ⟨1, 2, 4, 4, 4, 4, 5⟩]
    let r := Runner.configured bars true .standard
    let run := r.runIn r.context (some plottedSource) none
    parse plottedSource = .ok plottedStatements ∧ compile plottedSource = .ok plottedProgram ∧
      (∀ st ∈ plottedStatements, ∀ o, st.HasOffset o →
        ∃ l : Literal, o = .number l ∧ ¬ (l.value : Float) < 0) ∧
      run.1 = .ok () ∧ run.2.1.results.Shaped (some ["late", "spread"]) 2 := by
  intro bars r run
  have hparse : parse plottedSource = .ok plottedStatements := by
    with_unfolding_all rfl
  have hcompile : compile plottedSource = .ok plottedProgram := by
    rw [compile, hparse]
    with_unfolding_all rfl
  have hnumbers : ∀ st ∈ plottedStatements, ∀ o, st.HasOffset o →
      ∃ l : Literal, o = .number l ∧ ¬ (l.value : Float) < 0 := by
    intro st hst o ho
    rcases (plottedStatements_offsets o).1 ⟨st, hst, ho⟩ with rfl | rfl
    · exact ⟨_, rfl, by decide +kernel⟩
    · exact ⟨_, rfl, by decide +kernel⟩
  obtain ⟨hends, -, -, -, hok⟩ := script_ends hparse hcompile bars true .standard none
  have hrows : (Runner.window r.market none).length = 2 := by
    have hmarket : Market.ofBars bars = ⟨bars.toArray⟩ := Market.ofBars_ascending (by decide)
    have hr : r = ⟨⟨bars.toArray⟩, none, true, .standard⟩ := by rw [← hmarket]; rfl
    rw [hr]
    rfl
  have hcolumns : columnNames? plottedStatements = some ["late", "spread"] := by
    with_unfolding_all rfl
  refine ⟨hparse, hcompile, hnumbers, hok hnumbers, ?_⟩
  have hdone : run.1 = .ok () := hok hnumbers
  rw [← hcolumns, ← hrows]
  change r.Ends plottedStatements plottedProgram none run.1 run.2.1 at hends
  rw [hdone] at hends
  cases hends with
  | completed results => exact results

end BarScript
