import Mathlib
import BarScript.Command.Execute
import BarScript.Proofs.Completion
import BarScript.Proofs.Matched
import BarScript.Proofs.MeasuredCall
import BarScript.Proofs.Resolution

/-!
# Rows without the warm-up

A script that returns a record of measured calls, and makes no other, gives at every bar the
numbers of these calls (`evalFields_measured`). So the longest of their lookbacks is what the run
reports, and the rows in front of it are the ones with an unavailable entry: what a table keeps when
it skips the warm-up are the complete rows (`warmup_drops_incomplete`).
-/

namespace BarScript

/-! ## Evaluation without calls -/

section

variable {α : Type}

/-- The second context differs from the first in stores and outputs only. -/
def Undisturbed (c c' : Context α) : Prop :=
  { c' with stores := c.stores, outputs := c.outputs } = c

variable {es : List Effect} {c c' : Context α}

theorem Undisturbed.same (h : Undisturbed c c') : c'.market = c.market ∧ c'.bar = c.bar ∧
    c'.cache = c.cache ∧ c'.warmup = c.warmup := by
  unfold Undisturbed at h
  rw [← h]
  exact ⟨rfl, rfl, rfl, rfl⟩

variable [Arith α]

/-- What effects that are no calls have reached from `c`, each context beside itself. -/
theorem Undisturbed.simulation (c : Context α) :
    Simulation fun es (d d' : Context α) =>
      d' = d ∧ (∀ k, Effect.call k ∉ es) ∧ Undisturbed c d where
  bar h := by rw [h.1]
  clock h k := by rw [h.1]
  price h p := by rw [h.1]
  stores h := by rw [h.1]
  outputs h := by rw [h.1]
  results h := by rw [h.1]
  skip h := ⟨h.1, fun k hk => h.2.1 k (.tail _ hk), h.2.2⟩
  written h x := ⟨by rw [h.1], fun k hk => h.2.1 k (.tail _ hk), h.2.2⟩
  called h := absurd (.head _) (h.2.1 _)
  drawn h o := ⟨by rw [h.1], h.2.1, h.2.2⟩

theorem Op.execAll_undisturbed {os : List Op} (hos : ∀ k, .call k ∉ os.flatMap Op.effects)
    {plotted plotted' : Plotted α} (h : Op.execAll os plotted c = .ok plotted' c') :
    Undisturbed c c' := by
  have hlock := (Undisturbed.simulation c).execution.ops
    (List.forall₂_same.2 fun o _ => o.renamed_id) plotted [] c c
    ⟨rfl, by rwa [List.append_nil], rfl⟩
  rw [h] at hlock
  exact hlock.2.2.2

theorem Bound.evalAll_undisturbed {bs : List Bound} (hbs : ∀ k, .call k ∉ Bound.allEffects bs)
    {nums : List α} (h : Bound.evalAll bs c = .ok nums c') : Undisturbed c c' := by
  have hlock := (Undisturbed.simulation c).execution.toCorrespondence.bounds bs
    (Bound.all_renamed_id bs) [] c c ⟨rfl, by rwa [List.append_nil], rfl⟩
  rw [h] at hlock
  exact hlock.2.2.2

end

/-- Literal arguments have their own values. -/
theorem Bound.evalAll_stands {bs : List Bound} {nums : List Exact} {c c' : Context Exact}
    (h : Bound.evalAll bs c = .ok nums c') : List.Forall₂ Bound.Stands bs nums := by
  induction bs generalizing nums c with
  | nil =>
    cases h
    exact .nil
  | cons b bs ih =>
    rw [Bound.evalAll] at h
    obtain ⟨v, c₁, hv, h⟩ := eval_bind_ok h
    obtain ⟨vs, c₂, hvs, h⟩ := eval_bind_ok h
    cases h
    refine .cons ⟨?_, ?_⟩ (ih hvs)
    · rintro l rfl
      cases hv
      rfl
    · rintro f rfl
      cases hv
      rfl

theorem StudyCallOf.Measured.quiet {k : StudyCall} {n : Nat} (h : k.Measured n) :
    ∀ k', .call k' ∉ Bound.allEffects k.args := by
  intro k' hk'
  cases h with
  | plain => simp [Bound.allEffects, Bound.effects, Source.effects, Node.effects] at hk'
  | hull => simp [Bound.allEffects, Bound.effects, Source.effects, Node.effects] at hk'
  | symmetric => simp [Bound.allEffects, Bound.effects, Source.effects] at hk'
  | range => simp [Bound.allEffects, Bound.effects, Node.effects] at hk'
  | line h hoffset =>
    simp [Bound.allEffects, Bound.effects, Source.effects, Node.effects] at hk'
    exact hoffset k' hk'
  | dispersion hstudy h hbiased =>
    simp [Bound.allEffects, Bound.effects, Source.effects, Node.effects] at hk'
    exact hbiased k' hk'

/-! ## Entries that follow the bars -/

/-- The sources of a measured call are prices, which do not change from bar to bar. -/
theorem StudyCallOf.Measured.tracks {k : StudyCall} {n : Nat} (hk : k.Measured n)
    {c c' : Context Exact} (hmarket : c'.market = c.market) {e : CacheEntry Exact}
    (h : k.Tracks c e) : k.Tracks c' e := by
  have hreaches : c'.reaches = c.reaches := by rw [Context.reaches, hmarket]; rfl
  have hinput : k.input c' = k.input c := by
    cases hk with
    | range => rfl
    | _ => simp only [input, Source.history, hmarket, List.getElem?_cons_zero]
  unfold Tracks Keeps at h ⊢
  rwa [hinput, hreaches]

/-- A context at a bar of finite numbers, whose cache entries follow the bars. -/
structure Context.Tracked (evs : List Effect) (c : Context Exact) : Prop where
  market : c.market.Finite
  bar : c.bar < c.market.size
  entries : ∀ h e, c.cache.entries.find? h = some e →
    ∃ k n, .call k ∈ evs ∧ k.Measured n ∧ k.handle = some h ∧ k.Tracks c e

namespace Context.Tracked

variable {evs : List Effect} {c c' : Context Exact}

theorem congr (h : c.Tracked evs) (hmarket : c'.market = c.market)
    (hbar : c'.bar < c.market.size) (hcache : c'.cache = c.cache) : c'.Tracked evs where
  market := hmarket ▸ h.market
  bar := hmarket ▸ hbar
  entries i e he := by
    obtain ⟨k, n, hk, hn, hh, htracks⟩ := h.entries i e (hcache ▸ he)
    exact ⟨k, n, hk, hn, hh, hn.tracks hmarket htracks⟩

theorem undisturbed (h : c.Tracked evs) (hc : Undisturbed c c') : c'.Tracked evs := by
  obtain ⟨hmarket, hbar, hcache, -⟩ := hc.same
  exact h.congr hmarket (hbar ▸ h.bar) hcache

end Context.Tracked

/-- **The value of a measured call.** -/
theorem StudyCallOf.Measured.eval {k : StudyCall} {n : Nat} (hk : k.Measured n)
    {evs : List Effect} (hdistinct : (evs.filterMap Effect.handle?).Nodup) (hmem : .call k ∈ evs)
    {c c' : Context Exact} (hc : c.Tracked evs) {v : Exact}
    (h : (Node.study k).eval c = .ok v c') :
    c'.Tracked evs ∧ c'.market = c.market ∧ c'.bar = c.bar ∧
      c'.warmup = c.warmup.observe n ∧ 1 ≤ n ∧ (Arith.isNaN v = false ↔ n ≤ c.bar + 1) := by
  rw [Node.eval] at h
  obtain ⟨nums, c₁, hnums, h⟩ := eval_bind_ok h
  have hsame := Bound.evalAll_undisturbed hk.quiet hnums
  have hc₁ := hc.undisturbed hsame
  obtain ⟨hmarket, hbar, hcache, hwarmup⟩ := hsame.same
  have hentry : ∀ i e, k.handle = some i → c₁.cache.entries.find? i = some e → k.Tracks c₁ e := by
    intro i e hi he
    obtain ⟨k', n', hk', -, hi', htracks⟩ := hc₁.entries i e he
    exact eq_of_handle hdistinct hmem hk' hi hi' ▸ htracks
  obtain ⟨r, hperform, hmeasures⟩ :=
    hk.perform hc₁.market hc₁.bar (Bound.evalAll_stands hnums) hentry
  change EStateM.Result.ok ((k.perform nums c₁).1.headD Arith.nan)
    (c₁.absorb (k.perform nums c₁).2) = .ok v c' at h
  rw [hperform] at h
  cases h
  refine ⟨⟨hc₁.market, hc₁.bar, fun i e he => ?_⟩, hmarket, hbar, ?_, hmeasures.positive, ?_⟩
  · by_cases hi : k.handle = some i
    · exact ⟨k, n, hmem, hk, hi, hk.tracks rfl (hmeasures.entry i e hi he)⟩
    · obtain ⟨k', n', hk', hn', hi', htracks⟩ := hc₁.entries i e (hmeasures.others i hi ▸ he)
      exact ⟨k', n', hk', hn', hi', hn'.tracks rfl htracks⟩
  · exact hmeasures.warmup.trans (congrArg (Warmup.observe · n) hwarmup)
  · exact hbar ▸ hmeasures.numeric

/-! ## One bar -/

/-- A field that is a measured call with a lookback. -/
def Looks (f : String × Node) (n : Nat) : Prop := ∃ k, f.2 = .study k ∧ k.Measured n

/-- The longest of some lookbacks. -/
def longest (lookbacks : List Nat) : Nat := lookbacks.foldr max 0

/-- The numbers of a bar under the names of some fields. -/
def namedRow (fields : List (String × Node)) (vs : List Exact) : List (String × Value Exact) :=
  (fields.map (·.1)).zip (vs.map .number)

/-- All entries of a row are available. -/
def complete {α : Type} [Arith α] (vs : List α) : Bool := vs.all fun v => !Arith.isNaN v

/-- A completed bar counts what its calls have reported. -/
theorem Warmup.merge_observe {w : Warmup} (h : w.pending = 0) (n : Nat) :
    (w.observe n).merge.pending = 0 ∧
      (w.observe n).merge.maxPeriod.getD 0 = max (w.maxPeriod.getD 0) n := by
  obtain ⟨pending, maxPeriod⟩ := w
  obtain rfl : pending = 0 := h
  have hobserve : (Warmup.mk 0 maxPeriod).observe n = ⟨n, maxPeriod⟩ :=
    congrArg (Warmup.mk · maxPeriod) (Nat.zero_max n)
  rw [hobserve, merge]
  dsimp only
  split
  · exact ⟨rfl, rfl⟩
  · have hn : n = 0 := by omega
    exact ⟨rfl, by rw [hn, Nat.max_zero]⟩

/-- **The fields of a bar.** Their calls report the longest lookback, and the numbers are all
available when there are as many bars. -/
theorem evalFields_measured {evs : List Effect} (hdistinct : (evs.filterMap Effect.handle?).Nodup)
    {fields : List (String × Node)} {lookbacks : List Nat}
    (hfields : List.Forall₂ Looks fields lookbacks)
    (hmem : ∀ f ∈ fields, ∀ k, f.2 = .study k → .call k ∈ evs) {c c' : Context Exact}
    {values : List (String × Value Exact)} (hc : c.Tracked evs)
    (h : evalFields fields c = .ok values c') :
    ∃ vs, values = namedRow fields vs ∧ vs.length = fields.length ∧ c'.Tracked evs ∧
      c'.warmup = c.warmup.observe (longest lookbacks) ∧
      (complete vs = true ↔ longest lookbacks ≤ c.bar + 1) := by
  induction hfields generalizing c values with
  | nil =>
    cases h
    exact ⟨[], rfl, rfl, hc, (Warmup.observe_zero _).symm, fun _ => Nat.zero_le _, fun _ => rfl⟩
  | @cons f n fields lookbacks hf _ ih =>
    obtain ⟨k, hk, hmeasured⟩ := hf
    obtain ⟨key, node⟩ := f
    obtain rfl : node = .study k := hk
    rw [evalFields] at h
    obtain ⟨v, c₁, hv, h⟩ := eval_bind_ok h
    obtain ⟨rest, c₂, hrest, h⟩ := eval_bind_ok h
    cases h
    obtain ⟨hc₁, -, hbar, hwarmup, -, hnumeric⟩ :=
      hmeasured.eval hdistinct (hmem _ (.head _) k rfl) hc hv
    obtain ⟨vs, rfl, hlength, hc₂, hwarmup₂, hcomplete⟩ :=
      ih (fun f hf => hmem f (.tail _ hf)) hc₁ hrest
    refine ⟨v :: vs, rfl, congrArg (· + 1) hlength, hc₂, ?_, ?_⟩
    · rw [hwarmup₂, hwarmup, Warmup.observe_observe]
      rfl
    · rw [complete, List.all_cons, ← complete, Bool.and_eq_true, hcomplete, Bool.not_eq_true',
        hnumeric, hbar]
      exact Nat.max_le.symm

/-- A program that returns measured calls by name, and makes no other. -/
structure Program.Measured (p : Program) (fields : List (String × Node)) (lookbacks : List Nat) :
    Prop where
  result : p.result = some (.named fields)
  names : (fields.map (·.1)).Nodup
  calls : List.Forall₂ Looks fields lookbacks
  quiet : ∀ k, .call k ∉ p.ops.flatMap Op.effects
  distinct : (p.effects.filterMap Effect.handle?).Nodup

/-- What a program gives that is entered in a context: the numbers, which are all available when
there are `lookback` bars. -/
structure Program.Gives (p : Program) (fields : List (String × Node)) (lookback : Nat)
    (c : Context Exact) (vs : List Exact) : Prop where
  step : ∃ c', p.step c = .ok (.named (namedRow fields vs)) c'
  length : vs.length = fields.length
  complete : complete vs = true ↔ lookback ≤ c.bar + 1

namespace Program.Measured

variable {p : Program} {fields : List (String × Node)} {lookbacks : List Nat}

/-- **A step** gives the numbers of the calls and reports the longest lookback. -/
theorem step (hp : p.Measured fields lookbacks) {c c' : Context Exact} {out : StepOutput Exact}
    (hc : c.Tracked p.effects) (h : p.step c = .ok out c') :
    ∃ vs, out = .named (namedRow fields vs) ∧ p.Gives fields (longest lookbacks) c vs ∧
      c'.Tracked p.effects ∧ c'.warmup = c.warmup.observe (longest lookbacks) := by
  obtain ⟨plotted, c₁, hops, houtput⟩ := eval_bind_ok h
  have hsame := Op.execAll_undisturbed hp.quiet hops
  obtain ⟨-, hbar, -, hwarmup⟩ := hsame.same
  have hmem : ∀ f ∈ fields, ∀ k, f.2 = .study k → .call k ∈ p.effects := by
    rintro ⟨key, node⟩ hf k rfl
    refine List.mem_append_right _ ?_
    rw [hp.result]
    refine List.mem_flatMap.2 ⟨_, hf, ?_⟩
    rw [Node.effects]
    exact List.mem_append_right _ (.head _)
  unfold Program.output at houtput
  rw [hp.result] at houtput
  obtain ⟨values, c₂, hvalues, houtput⟩ := eval_bind_ok houtput
  cases houtput
  obtain ⟨vs, rfl, hlength, hc₂, hwarmup₂, hcomplete⟩ :=
    evalFields_measured hp.distinct hp.calls hmem (hc.undisturbed hsame) hvalues
  refine ⟨vs, rfl, ⟨⟨c', h⟩, hlength, hbar ▸ hcomplete⟩, hc₂, hwarmup ▸ hwarmup₂⟩

/-! ## A run -/

/-- **The bars of a run**: every bar gives a row, and the run reports the longest lookback. -/
theorem visits (hp : p.Measured fields lookbacks) {bars : List Nat} {ctx ctx' : Context Exact}
    (hctx : ∀ bar < ctx.market.size, (Engine.enter ctx bar).Tracked p.effects)
    (hbars : ∀ bar ∈ bars, bar < ctx.market.size) (hpending : ctx.warmup.pending = 0)
    (h : Runner.visits p bars ctx = (.ok (), ctx')) :
    ∃ rows, List.Forall₂ (p.Gives fields (longest lookbacks)) (Runner.entered p bars ctx) rows ∧
      (∀ outputs, ctx.results.Holds outputs →
        ctx'.results.Holds (outputs ++ rows.map fun vs => .named (namedRow fields vs))) ∧
      ctx'.maxPeriod.getD 0 =
        if bars = [] then ctx.maxPeriod.getD 0
        else max (ctx.maxPeriod.getD 0) (longest lookbacks) := by
  induction bars generalizing ctx with
  | nil =>
    cases h
    exact ⟨[], .nil, fun outputs h => by rwa [List.map_nil, List.append_nil], rfl⟩
  | cons bar bars ih =>
    obtain ⟨out, c, results, hstep, hpush, hrest, hentered⟩ := Runner.visits_cons h
    have htouched := p.step_touched (Engine.enter ctx bar)
    rw [hstep] at htouched
    have hmarket : c.market = ctx.market := htouched.market
    obtain ⟨vs, rfl, hgives, hc, hwarmup⟩ := hp.step (hctx bar (hbars bar (.head _))) hstep
    obtain ⟨hpending', hlongest⟩ := Warmup.merge_observe hpending (longest lookbacks)
    have hmerge : c.warmup.merge = (ctx.warmup.observe (longest lookbacks)).merge := by
      rw [hwarmup]
      rfl
    have hnext : ∀ bar < (Engine.leave c results).market.size,
        (Engine.enter (Engine.leave c results) bar).Tracked p.effects :=
      fun bar hbar => hc.congr rfl hbar rfl
    have hrestBars : ∀ bar ∈ bars, bar < (Engine.leave c results).market.size := fun bar hbar => by
      show bar < c.market.size
      rw [hmarket]
      exact hbars bar (.tail _ hbar)
    obtain ⟨rows, hrows, hholds, hmax⟩ :=
      ih hnext hrestBars ((congrArg Warmup.pending hmerge).trans hpending') hrest
    refine ⟨vs :: rows, hentered ▸ .cons hgives hrows, fun outputs houtputs => ?_, ?_⟩
    · have hbefore : c.results.Holds outputs := htouched.results ▸ houtputs
      rw [List.map_cons, List.append_cons]
      exact hholds _ (hbefore.push hpush)
    · have hleave : (Engine.leave c results).maxPeriod.getD 0 =
          max (ctx.maxPeriod.getD 0) (longest lookbacks) :=
        (congrArg (fun w : Warmup => w.maxPeriod.getD 0) hmerge).trans hlongest
      rw [hmax, if_neg (List.cons_ne_nil _ _), hleave]
      split
      · rfl
      · rw [Nat.max_assoc, Nat.max_self]

end Program.Measured

/-! ## Tables -/

section

variable {fields : List (String × Node)} {vs : List Exact}

theorem length_namedRow (hlength : vs.length = fields.length) :
    (namedRow fields vs).length = fields.length := by
  simp [namedRow, hlength]

theorem namedRow_keys (hlength : vs.length = fields.length) :
    (namedRow fields vs).map (·.1) = fields.map (·.1) :=
  List.map_fst_zip (by simp [hlength])

/-- The entries of a row are its numbers. -/
theorem entry_namedRow (hnames : (fields.map (·.1)).Nodup) (hlength : vs.length = fields.length) :
    (fields.map (·.1)).map (StepOutput.named (namedRow fields vs)).entry = vs := by
  refine List.ext_getElem (by simp [hlength]) fun i hi hi' => ?_
  have hrow : i < (namedRow fields vs).length := by
    rw [length_namedRow hlength, ← hlength]
    exact hi'
  have hkeys : ((namedRow fields vs).map (·.1)).Nodup := by rwa [namedRow_keys hlength]
  have hlast := StepOutput.last?_of_mem hkeys (List.getElem_mem hrow)
  have hname : i < (fields.map (·.1)).length := by simpa using hi
  have hfield : (namedRow fields vs)[i] = ((fields.map (·.1))[i], .number vs[i]) := by
    simp [namedRow]
  rw [hfield] at hlast
  rw [List.getElem_map, StepOutput.entry, hlast]
  rfl

end

/-- What is dropped in front is what does not pass a test. -/
theorem drop_eq_filter {β : Type} {xs : List β} {keep : β → Bool} {k : Nat}
    (h : ∀ (i : Nat) (hi : i < xs.length), keep xs[i] = true ↔ k ≤ i) :
    xs.drop k = xs.filter keep := by
  induction xs generalizing k with
  | nil => simp
  | cons x xs ih =>
    have hrest : ∀ (i : Nat) (hi : i < xs.length), keep xs[i] = true ↔ k - 1 ≤ i := by
      intro i hi
      have hi' := h (i + 1) (Nat.succ_lt_succ hi)
      rw [List.getElem_cons_succ] at hi'
      rw [hi']
      omega
    have hx := h 0 (Nat.zero_lt_succ _)
    rw [List.getElem_cons_zero] at hx
    cases k with
    | zero =>
      rw [List.filter_cons_of_pos (hx.2 (Nat.le_refl _)), ← ih hrest]
      rfl
    | succ k =>
      rw [List.filter_cons_of_neg (fun hkeep => absurd (hx.1 hkeep) (Nat.not_succ_le_zero k)),
        ← ih hrest]
      rfl

/-- What a bar has given: the context in which it was entered, and the numbers. -/
abbrev BarRow := Context Exact × List Exact

/-- The record of a row in a table: the opening time of its bar, and the entries. -/
noncomputable def BarRow.record (row : BarRow) : List String :=
  toString row.1.now :: row.2.map Command.entryText

/-- The columns of rows with the same names. -/
theorem namedColumns_eq {fields : List (String × Node)} (hnames : (fields.map (·.1)).Nodup)
    {r : Results Exact} {rows : List (List Exact)} (hlength : ∀ vs ∈ rows, vs.length = fields.length)
    (hne : rows ≠ []) (hholds : r.Holds (rows.map fun vs => .named (namedRow fields vs))) :
    Command.namedColumns r.columns = Results.table (fields.map (·.1)) fun name =>
      rows.map fun vs => (StepOutput.named (namedRow fields vs)).entry name := by
  have hkeys : ∀ o ∈ rows.map fun vs => StepOutput.named (namedRow fields vs),
      o.keys = fields.map (·.1) := by
    intro o ho
    obtain ⟨vs, hvs, rfl⟩ := List.mem_map.1 ho
    exact namedRow_keys (hlength vs hvs)
  have hcolumns := Results.eraseDups_flatMap_const (by simpa using hne) hkeys
  rw [eraseDups_of_nodup hnames] at hcolumns
  rw [hholds.eq_tabulate, ← hcolumns]
  cases rows with
  | nil => exact absurd rfl hne
  | cons vs rows =>
    simp only [Results.tabulate, List.map_cons, Command.namedColumns, List.map_map, Function.comp_def]

/-- The record of a bar has the numbers of the row. -/
theorem rowFields_row {fields : List (String × Node)} (hnames : (fields.map (·.1)).Nodup)
    {r : Results Exact} {rows : List (List Exact)} (hlength : ∀ vs ∈ rows, vs.length = fields.length)
    (hholds : r.Holds (rows.map fun vs => .named (namedRow fields vs))) (b : Bar Exact) {i : Nat}
    (hi : i < rows.length) :
    Command.rowFields (Command.namedColumns r.columns) b i =
      toString b.openTime :: rows[i].map Command.entryText := by
  have hentries := entry_namedRow hnames (hlength _ (List.getElem_mem hi))
  rw [namedColumns_eq hnames hlength (List.ne_nil_of_length_pos (Nat.zero_lt_of_lt hi)) hholds,
    Command.rowFields, Results.table, List.map_map]
  conv_rhs => rw [← hentries, List.map_map]
  congr 1
  refine List.map_congr_left fun name _ => ?_
  simp [hi]

/-- **The records of a table** are those of the bars that were run. -/
theorem records_eq {fields : List (String × Node)} (hnames : (fields.map (·.1)).Nodup)
    {ctx : Context Exact} {rows : List BarRow} (hlength : ∀ row ∈ rows, row.2.length = fields.length)
    (hholds : ctx.results.Holds ((rows.map (·.2)).map fun vs => .named (namedRow fields vs)))
    {first : Nat} (hfirst : first + rows.length = ctx.market.size)
    (hbars : rows.map (·.1.snapshot) =
      (List.range' first rows.length).map (Snapshot.mk ctx.market)) :
    ((Request.lastOnes ctx.results.rows ctx.market.bars.toList).zipIdx.map fun (b, row) =>
        Command.rowFields (Command.namedColumns ctx.results.columns) b row) =
      rows.map BarRow.record := by
  have hrows : ctx.results.rows = rows.length := by
    rw [hholds.rows, List.length_map, List.length_map]
  have hsize : ctx.market.bars.toList.length = ctx.market.size := rfl
  have hlast : Request.lastOnes ctx.results.rows ctx.market.bars.toList =
      ctx.market.bars.toList.drop first := by
    rw [Request.lastOnes, hrows, hsize, ← hfirst, Nat.add_sub_cancel]
  have hcount : (ctx.market.bars.toList.drop first).length = rows.length := by
    rw [List.length_drop, hsize, ← hfirst, Nat.add_sub_cancel_left]
  have hlengths : ∀ vs ∈ rows.map (·.2), vs.length = fields.length := by
    intro vs hvs
    obtain ⟨row, hrow, rfl⟩ := List.mem_map.1 hvs
    exact hlength row hrow
  rw [hlast]
  refine List.ext_getElem (by simp [hcount]) fun i _ hi => ?_
  rw [List.length_map] at hi
  have hbar : rows[i].1.snapshot = ⟨ctx.market, first + i⟩ := by
    have hget := congrArg (·[i]?) hbars
    simpa [hi] using hget
  have hin : first + i < ctx.market.bars.size := by
    show first + i < ctx.market.size
    omega
  have hnow : rows[i].1.now = ctx.market.bars[first + i].openTime := by
    rw [Context.now, hbar]
    exact Snapshot.now_eq hin
  have hrow := rowFields_row hnames hlengths hholds ctx.market.bars[first + i]
    (i := i) (by rwa [List.length_map])
  simp only [List.getElem_map, List.getElem_zipIdx, List.getElem_drop, Array.getElem_toList,
    Nat.zero_add, hrow, BarRow.record, hnow]

/-! ## Scripts -/

/-- A returned record has no name twice. -/
theorem compile_names {source : String} {ss : List Statement} {p : Program}
    {fields : List (String × Node)} (hparse : parse source = .ok ss)
    (hcompile : compile source = .ok p) (hresult : p.result = some (.named fields)) :
    (fields.map (·.1)).Nodup := by
  obtain ⟨s', hresolved, -⟩ :=
    compileStatements_ok_iff.1 (compileStatements_of_compile hparse hcompile)
  rw [hresult] at hresolved
  obtain ⟨v, hv, hnames⟩ := hresolved.returned
  obtain ⟨st, hst, hreturned⟩ := List.exists_of_findSome?_eq_some hv
  have hdistinct := parse_keys hparse st hst v hreturned
  cases v with
  | single e => cases hnames
  | named entries =>
    have hsame : fields.map (·.1) = entries.map (·.1) := Option.some.inj hnames
    rwa [hsame]

theorem exists_lookbacks {fields : List (String × Node)} (h : ∀ f ∈ fields, ∃ n, Looks f n) :
    ∃ lookbacks, List.Forall₂ Looks fields lookbacks := by
  induction fields with
  | nil => exact ⟨[], .nil⟩
  | cons f fields ih =>
    obtain ⟨n, hn⟩ := h f (.head _)
    obtain ⟨lookbacks, hrest⟩ := ih fun g hg => h g (.tail _ hg)
    exact ⟨n :: lookbacks, .cons hn hrest⟩

theorem Market.ofBars_finite {bars : List (Bar Exact)} (hbars : ∀ b ∈ bars, b.Finite)
    (hsize : bars.length < twoTo 63) : (Market.ofBars bars).Finite where
  finite b hb := by
    rw [Market.ofBars, List.toList_toArray, Market.sorted, List.mem_mergeSort] at hb
    exact hbars b hb
  size := by
    show (Market.sorted bars).length < _
    rwa [Market.sorted, List.length_mergeSort]

/-- The rows of a run of measured calls on a fresh context. -/
structure BarRows (p : Program) (fields : List (String × Node)) (lookback : Nat) (r : Runner Exact)
    (count : Option Nat) (ctx : Context Exact) (rows : List BarRow) : Prop where
  market : ctx.market = r.market
  entered : rows.map (·.1) = Runner.entered p (Runner.window r.market count) r.context
  snapshots : rows.map (·.1.snapshot) = (Runner.window r.market count).map (Snapshot.mk r.market)
  gives : ∀ row ∈ rows, p.Gives fields lookback row.1 row.2
  holds : ctx.results.Holds ((rows.map (·.2)).map fun vs => .named (namedRow fields vs))
  longest : ctx.maxPeriod.getD 0 = if rows = [] then 0 else lookback

/-- **A run on a fresh context** has a row for every bar of its window. -/
theorem Program.Measured.run {p : Program} {fields : List (String × Node)} {lookbacks : List Nat}
    (hp : p.Measured fields lookbacks) {r : Runner Exact} (hmarket : r.market.Finite)
    {count : Option Nat} {ctx : Context Exact}
    (h : Runner.visits p (Runner.window r.market count) r.context = (.ok (), ctx)) :
    ∃ rows, BarRows p fields (BarScript.longest lookbacks) r count ctx rows := by
  have hnone : ∀ i, r.context.cache.entries.find? i = none := fun _ => rfl
  have htracked : ∀ bar < r.context.market.size,
      (Engine.enter r.context bar).Tracked p.effects := by
    intro bar hbar
    refine ⟨hmarket, hbar, fun i e he => ?_⟩
    have he' : none = some e := (hnone i).symm.trans he
    cases he'
  let cs := Runner.entered p (Runner.window r.market count) r.context
  have hsnapshots : cs.map Context.snapshot =
      (Runner.window r.market count).map (Snapshot.mk r.market) := Runner.entered_snapshots h
  obtain ⟨rows, hrows, hholds, hlongest⟩ :=
    hp.visits htracked (fun _ => Runner.lt_size_of_mem_window) rfl h
  obtain ⟨hlength, hgives⟩ := List.forall₂_iff_zip.1 hrows
  have hfst : (cs.zip rows).map (·.1) = cs := List.map_fst_zip (Nat.le_of_eq hlength)
  have hsnd : (cs.zip rows).map (·.2) = rows := List.map_snd_zip (Nat.le_of_eq hlength.symm)
  have hempty : cs.zip rows = [] ↔ Runner.window r.market count = [] := by
    rw [← List.map_eq_nil_iff (f := (·.1)), hfst, ← List.map_eq_nil_iff (f := Context.snapshot),
      hsnapshots, List.map_eq_nil_iff]
  refine ⟨cs.zip rows, ?_, hfst, ?_, fun row hrow => hgives hrow, ?_, ?_⟩
  · have hkept := Runner.visits_market p (Runner.window r.market count) r.context
    rwa [h] at hkept
  · rw [← hsnapshots]
    conv_rhs => rw [← hfst, List.map_map]
    rfl
  · rw [hsnd]
    have hnothing : ∀ o ∈ ([] : List (StepOutput Exact)), o.isNamed = true := List.forall_mem_nil _
    exact hholds [] (Results.tabulate_holds hnothing)
  · refine hlongest.trans ?_
    by_cases hwindow : Runner.window r.market count = []
    · rw [if_pos (hempty.2 hwindow)]
      exact if_pos hwindow
    · rw [if_neg fun hnil => hwindow (hempty.1 hnil)]
      exact (if_neg hwindow).trans (Nat.zero_max _)

/-- **The rows behind the warm-up** are the complete ones. -/
theorem BarRows.drop_warmup {p : Program} {fields : List (String × Node)} {lookback : Nat}
    {r : Runner Exact} {count : Option Nat} {ctx : Context Exact} {rows : List BarRow}
    (h : BarRows p fields lookback r count ctx rows) :
    rows.drop (Command.warmupRows ctx) = rows.filter fun row => complete row.2 := by
  refine drop_eq_filter fun i hi => ?_
  have hlongest := h.longest
  rw [if_neg (List.ne_nil_of_length_pos (Nat.zero_lt_of_lt hi))] at hlongest
  have hlength := congrArg List.length h.snapshots
  rw [List.length_map, List.length_map, Runner.window, List.length_range'] at hlength
  have hsize : ctx.market.size = r.market.size := by rw [h.market]
  have hrows : ctx.results.rows = rows.length := by
    rw [h.holds.rows, List.length_map, List.length_map]
  have hbar : rows[i].1.bar = (barRange r.market.size count).1 + i := by
    have hget := congrArg (·[i]?) h.snapshots
    have hwindow : i < (barRange r.market.size count).2 - (barRange r.market.size count).1 := by
      rwa [← hlength]
    simp only [List.getElem?_map, List.getElem?_eq_getElem hi, Runner.window,
      List.getElem?_range' hwindow, Option.map_some, Option.some.injEq, Nat.one_mul] at hget
    exact congrArg Snapshot.bar hget
  rw [(h.gives _ (List.getElem_mem hi)).complete, hbar, Command.warmupRows, hlongest, hrows, hsize]
  unfold barRange at hlength ⊢
  omega

/-- **The table of a run without its warm-up** has the records of the complete rows. -/
theorem BarRows.table {p : Program} {fields : List (String × Node)} {lookback : Nat}
    {r : Runner Exact} {count : Option Nat} {ctx : Context Exact} {rows : List BarRow}
    (h : BarRows p fields lookback r count ctx rows) (hnames : (fields.map (·.1)).Nodup) :
    Command.resultTable ctx (Command.warmupRows ctx) =
      String.join ((("time" :: (Command.namedColumns ctx.results.columns).map (·.1)) ::
        (rows.filter fun row => complete row.2).map BarRow.record).map Csv.line) := by
  have hlength := congrArg List.length h.snapshots
  rw [List.length_map, List.length_map, Runner.window, List.length_range'] at hlength
  have hfirst : (barRange r.market.size count).1 + rows.length = ctx.market.size := by
    rw [hlength, h.market]
    unfold barRange
    omega
  have hbars : rows.map (·.1.snapshot) =
      (List.range' (barRange r.market.size count).1 rows.length).map (Snapshot.mk ctx.market) := by
    rw [h.snapshots, h.market, hlength]
    rfl
  have hrecords :=
    records_eq hnames (fun row hrow => (h.gives row hrow).length) h.holds hfirst hbars
  unfold Command.resultTable
  dsimp only
  rw [List.map_drop, hrecords, ← List.map_drop, h.drop_warmup]

/-- An average, an unbiased deviation and the true range, with lookbacks of three and two bars. -/
def measuredSource : String :=
  "return \x7bslow: ta.ema(close, 3), spread: ta.stdev(hl2, 2, false), range: ta.atr(2)\x7d"

def measuredStatements : List Statement :=
  [.result (.named
    [("slow", .call ⟨"ta.ema",
        [⟨none, .name "close" 21, 21⟩, ⟨none, .number (.ofNat 3), 28⟩], 14⟩),
      ("spread", .call ⟨"ta.stdev", [⟨none, .name "hl2" 49, 49⟩, ⟨none, .number (.ofNat 2), 54⟩,
        ⟨none, .flag false, 57⟩], 40⟩),
      ("range", .call ⟨"ta.atr", [⟨none, .number (.ofNat 2), 79⟩], 72⟩)]) 0]

def measuredFields : List (String × Node) :=
  let length (n : Nat) : Bound := .number (.number (.ofNat n))
  [("slow", .study ⟨.ema, [.series (.price .close), length 3], some 0⟩),
    ("spread", .study ⟨.stdev, [.series (.price .hl2), length 2, .number (.flag false)], none⟩),
    ("range", .study ⟨.atr, [length 2], some 1⟩)]

end BarScript
