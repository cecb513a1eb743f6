import Mathlib.Data.List.Chain
import BarScript.Arith.Double
import BarScript.Proofs.Columns
import BarScript.Proofs.View

/-!
# The calls of a step

A run is told by the calls it makes. `Engine.recorded` is a step that keeps a log of them, and the
run of it is the run of the step with the log beside it (`Engine.visitAll_recorded`).
`Engine.Looped` says which calls a run over some bars makes: one constructor for each way in which a
bar ends. From it follow, by induction over the bars, where the calls start (`Looped.bars`,
`Looped.begins`, `Looped.goesOn`) and what a run leaves behind when it completes or stops
(`Looped.succeeds`, `Looped.fails`).
-/

namespace BarScript

variable {α : Type} [Arith α]

theorem Results.push_rows {r r' : Results α} {bar : Nat} {output : StepOutput α}
    (h : r.push bar output = .ok r') : r'.rows = r.rows + 1 := by
  unfold push at h
  split at h
  all_goals cases h
  all_goals rfl

namespace Engine

variable {σ : Type}

/-! ## Calls -/

/-- A call of a step: the state it started in, and how it ended. -/
structure StepCall (α σ : Type) where
  start : Context α × σ
  ending : EStateM.Result Failure (Context α × σ) (StepOutput α)

/-- The output of a call that succeeded. -/
def StepCall.output? (c : StepCall α σ) : Option (StepOutput α) :=
  match c.ending with
  | .ok output _ => some output
  | .error _ _ => none

/-- Where a call leads whose output is taken in: its results have one output more, the lookbacks of
the bar count and the stores are carried on, each once. -/
def StepCall.Leads (c : StepCall α σ) (s : Context α × σ) : Prop :=
  ∃ output e results, c.ending = .ok output e ∧ e.1.results.push e.1.bar output = .ok results ∧
    s = ({ e.1 with
      results := results, warmup := e.1.warmup.merge, stores := e.1.stores.shiftAll }, e.2)

/-- How a call stops a run: it fails, or its output is rejected. Nothing is changed after it. -/
def StepCall.Stops (c : StepCall α σ) (failure : Failure) (s : Context α × σ) : Prop :=
  c.ending = .error failure s ∨
    ∃ output, c.ending = .ok output s ∧ s.1.results.push s.1.bar output = .error failure

/-- An outcome with a log beside the state of the step. -/
def withLog {β : Type} (log : List (StepCall α σ)) :
    EStateM.Result Failure (Context α × σ) β →
      EStateM.Result Failure (Context α × σ × List (StepCall α σ)) β
  | .ok x s => .ok x (s.1, s.2, log)
  | .error failure s => .error failure (s.1, s.2, log)

/-- A step that keeps a log of its calls. -/
def recorded (step : RunM α σ (StepOutput α)) :
    RunM α (σ × List (StepCall α σ)) (StepOutput α) := fun s =>
  let start := (s.1, s.2.1)
  withLog (s.2.2 ++ [⟨start, step start⟩]) (step start)

/-- The call of a step at a bar. -/
def callAt (step : RunM α σ (StepOutput α)) (bar : Nat) (s : Context α × σ) : StepCall α σ :=
  ⟨(enter s.1 bar, s.2), step (enter s.1 bar, s.2)⟩

omit [Arith α] in
@[simp] theorem callAt_start (step : RunM α σ (StepOutput α)) (bar : Nat) (s : Context α × σ) :
    (callAt step bar s).start = (enter s.1 bar, s.2) := rfl

omit [Arith α] in
@[simp] theorem callAt_ending (step : RunM α σ (StepOutput α)) (bar : Nat) (s : Context α × σ) :
    (callAt step bar s).ending = step (enter s.1 bar, s.2) := rfl

/-- The calls that a run over some bars makes from a state, and how it ends. -/
inductive Looped (step : RunM α σ (StepOutput α)) : List Nat → Context α × σ →
    List (StepCall α σ) → EStateM.Result Failure (Context α × σ) Unit → Prop
  | done (s : Context α × σ) : Looped step [] s [] (.ok () s)
  | stops {bar : Nat} {bars : List Nat} {s s' : Context α × σ} {failure : Failure}
      (h : (callAt step bar s).Stops failure s') :
      Looped step (bar :: bars) s [callAt step bar s] (.error failure s')
  | next {bar : Nat} {bars : List Nat} {s s' : Context α × σ} {calls : List (StepCall α σ)}
      {outcome : EStateM.Result Failure (Context α × σ) Unit}
      (h : (callAt step bar s).Leads s') (hrest : Looped step bars s' calls outcome) :
      Looped step (bar :: bars) s (callAt step bar s :: calls) outcome

theorem visit_eq (step : RunM α σ (StepOutput α)) (bar : Nat) (s : Context α × σ) :
    visit step bar s = match step (enter s.1 bar, s.2) with
      | .ok output s' => collect output s'
      | .error failure s' => .error failure s' := by
  show EStateM.bind step collect (enter s.1 bar, s.2) = _
  unfold EStateM.bind
  cases step (enter s.1 bar, s.2) <;> rfl

theorem visitAll_cons_eq (step : RunM α σ (StepOutput α)) (bar : Nat) (bars : List Nat)
    (s : Context α × σ) :
    visitAll step (bar :: bars) s = match visit step bar s with
      | .ok _ s' => visitAll step bars s'
      | .error failure s' => .error failure s' := by
  show EStateM.bind (visit step bar) (fun _ => visitAll step bars) s = _
  unfold EStateM.bind
  cases visit step bar s <;> rfl

/-- **One bar**: the call leads on or it stops the run, and a log takes it in. -/
theorem visit_cases (step : RunM α σ (StepOutput α)) (bar : Nat) (s : Context α × σ) :
    let c := callAt step bar s
    (∃ s', c.Leads s' ∧ visit step bar s = .ok () s' ∧
      ∀ log, visit (recorded step) bar (s.1, s.2, log) = withLog (log ++ [c]) (.ok () s')) ∨
    ∃ failure s', c.Stops failure s' ∧ visit step bar s = .error failure s' ∧
      ∀ log, visit (recorded step) bar (s.1, s.2, log) =
        withLog (log ++ [c]) (.error failure s') := by
  intro c
  have hrecorded : ∀ log, recorded step (enter s.1 bar, s.2, log) =
      withLog (log ++ [c]) (step (enter s.1 bar, s.2)) := fun _ => rfl
  simp only [visit_eq, hrecorded]
  cases hstep : step (enter s.1 bar, s.2) with
  | error failure s' =>
    exact .inr ⟨failure, s', .inl hstep, rfl, fun _ => rfl⟩
  | ok output s' =>
    cases hpush : s'.1.results.push s'.1.bar output with
    | error failure =>
      exact .inr ⟨failure, s', .inr ⟨output, hstep, hpush⟩, collect_error hpush,
        fun _ => collect_error hpush⟩
    | ok results =>
      exact .inl ⟨(leave s'.1 results, s'.2), ⟨output, s', results, hstep, hpush, rfl⟩,
        collect_ok hpush, fun _ => collect_ok hpush⟩

/-- **A log changes nothing**, and it takes in the calls that the run makes. -/
theorem visitAll_recorded (step : RunM α σ (StepOutput α)) (bars : List Nat)
    (s : Context α × σ) :
    ∃ calls, Looped step bars s calls (visitAll step bars s) ∧
      ∀ log, visitAll (recorded step) bars (s.1, s.2, log) =
        withLog (log ++ calls) (visitAll step bars s) := by
  induction bars generalizing s with
  | nil => exact ⟨[], .done s, fun log => by rw [List.append_nil]; rfl⟩
  | cons bar bars ih =>
    rw [visitAll_cons_eq]
    rcases visit_cases step bar s with
      ⟨s', hleads, hvisit, hlog⟩ | ⟨failure, s', hstops, hvisit, hlog⟩
    · obtain ⟨calls, hcalls, hrest⟩ := ih s'
      rw [hvisit]
      refine ⟨_ :: calls, .next hleads hcalls, fun log => ?_⟩
      rw [visitAll_cons_eq, hlog]
      show visitAll (recorded step) bars (s'.1, s'.2, _) = _
      rw [hrest, List.append_assoc]
      rfl
    · rw [hvisit]
      refine ⟨[_], .stops hstops, fun log => ?_⟩
      rw [visitAll_cons_eq, hlog]
      rfl

/-! ## Where the calls start -/

namespace Looped

variable {step : RunM α σ (StepOutput α)} {bars : List Nat} {s : Context α × σ}
variable {calls : List (StepCall α σ)} {outcome : EStateM.Result Failure (Context α × σ) Unit}

theorem called (h : Looped step bars s calls outcome) :
    ∀ c ∈ calls, c.ending = step c.start := by
  induction h with
  | done s => simp
  | stops h => simp
  | next h hrest ih => simpa using ih

theorem length_le (h : Looped step bars s calls outcome) : calls.length ≤ bars.length := by
  induction h with
  | done s => simp
  | stops h => simp
  | next h hrest ih => simpa using ih

theorem bars_eq (h : Looped step bars s calls outcome) :
    calls.map (·.start.1.bar) = bars.take calls.length := by
  induction h with
  | done s => rfl
  | stops h => rfl
  | next h hrest ih => simpa [enter] using ih

theorem begins (h : Looped step bars s calls outcome) :
    ∀ c ∈ calls.head?, c.start = (enter s.1 c.start.1.bar, s.2) := by
  cases h with
  | done => simp
  | stops h => simp [enter]
  | next h hrest => simp [enter]

/-- After a call that leads on, the next one starts where it leads, at a bar further. -/
theorem goesOn (h : Looped step bars s calls outcome) :
    calls.IsChain fun c d => ∃ s, c.Leads s ∧ d.start = (enter s.1 d.start.1.bar, s.2) := by
  induction h with
  | done s => simp
  | stops h => simp
  | next h hrest ih =>
    rw [List.isChain_cons]
    exact ⟨fun d hd => ⟨_, h, hrest.begins d hd⟩, ih⟩

/-- A step that leaves the market alone is called on the same market every time. -/
theorem market (h : Looped step bars s calls outcome)
    (hkeeps : ∀ s output s', step s = .ok output s' → s'.1.market = s.1.market) :
    ∀ c ∈ calls, c.start.1.market = s.1.market := by
  induction h with
  | done s => simp
  | stops h => simp [enter]
  | @next bar bars s s' calls outcome h hrest ih =>
    obtain ⟨output, e, results, hstep, -, rfl⟩ := h
    have hmarket : e.1.market = s.1.market := hkeeps (enter s.1 bar, s.2) _ _ hstep
    intro c hc
    rcases List.mem_cons.1 hc with rfl | hc
    · rfl
    · exact (ih c hc).trans hmarket

end Looped

/-! ## What a run leaves behind -/

/-- A step that does not write the results, neither when it succeeds nor when it fails. -/
structure KeepsResults (step : RunM α σ (StepOutput α)) : Prop where
  ok : ∀ s output s', step s = .ok output s' → s'.1.results = s.1.results
  error : ∀ s failure s', step s = .error failure s' → s'.1.results = s.1.results

/-- The results `r'` are the results `r` with the outputs of some calls, one row for each. -/
def Appends (r : Results α) (calls : List (StepCall α σ)) (r' : Results α) : Prop :=
  r'.rows = r.rows + calls.length ∧
    ∃ outputs, calls.map (·.output?) = outputs.map some ∧
      ∀ prior, r.Holds prior → r'.Holds (prior ++ outputs)

theorem Appends.nil (r : Results α) : Appends r ([] : List (StepCall α σ)) r :=
  ⟨rfl, [], rfl, fun prior h => by rwa [List.append_nil]⟩

theorem Appends.cons {r r' r'' : Results α} {c : StepCall α σ} {calls : List (StepCall α σ)}
    {output : StepOutput α} {s : Context α × σ} {bar : Nat} (hcall : c.ending = .ok output s)
    (hpush : r.push bar output = .ok r') (h : Appends r' calls r'') :
    Appends r (c :: calls) r'' := by
  obtain ⟨hrows, outputs, houtputs, hholds⟩ := h
  refine ⟨?_, output :: outputs, ?_, fun prior hprior => ?_⟩
  · rw [hrows, Results.push_rows hpush, List.length_cons]
    omega
  · have hcallOutput : c.output? = some output := by simp [StepCall.output?, hcall]
    rw [List.map_cons, List.map_cons, houtputs, hcallOutput]
  · simpa using hholds _ (hprior.push hpush)

namespace Looped

variable {step : RunM α σ (StepOutput α)} {bars : List Nat} {s s' : Context α × σ}
variable {calls : List (StepCall α σ)} {outcome : EStateM.Result Failure (Context α × σ) Unit}

/-- A bar whose call leads on has one row more. -/
theorem leads_appends (hstep : KeepsResults step) {bar : Nat} {rest : List (StepCall α σ)}
    {r : Results α} (h : (callAt step bar s).Leads s') (hrest : Appends s'.1.results rest r) :
    Appends s.1.results (callAt step bar s :: rest) r := by
  obtain ⟨output, e, results, hcall, hpush, rfl⟩ := h
  have hkept : e.1.results = s.1.results := hstep.ok (enter s.1 bar, s.2) _ _ hcall
  exact hrest.cons hcall (hkept ▸ hpush)

theorem stops_results (hstep : KeepsResults step) {bar : Nat} {failure : Failure}
    (h : (callAt step bar s).Stops failure s') : s'.1.results = s.1.results := by
  rcases h with h | ⟨output, h, -⟩
  · exact hstep.error (enter s.1 bar, s.2) _ _ h
  · exact hstep.ok (enter s.1 bar, s.2) _ _ h

/-- **A run that completes** has made a call at every bar, and every call has led on. -/
theorem succeeds (hstep : KeepsResults step) (h : Looped step bars s calls outcome)
    (houtcome : outcome = .ok () s') :
    calls.length = bars.length ∧ Appends s.1.results calls s'.1.results ∧
      (calls = [] ∧ s' = s ∨ ∃ c ∈ calls.getLast?, c.Leads s') := by
  induction h with
  | done s =>
    obtain rfl : s = s' := by simpa using houtcome
    exact ⟨rfl, .nil _, .inl ⟨rfl, rfl⟩⟩
  | stops h => cases houtcome
  | next h hrest ih =>
    obtain ⟨hlength, happends, hlast⟩ := ih houtcome
    refine ⟨by simp [hlength], leads_appends hstep h happends, .inr ?_⟩
    rcases hlast with ⟨rfl, rfl⟩ | ⟨c, hc, hleads⟩
    · exact ⟨_, rfl, h⟩
    · exact ⟨c, by simp [List.getLast?_cons, Option.mem_def.1 hc], hleads⟩

/-- **A run that stops** does so at its last call, and every call before has led on. -/
theorem fails (hstep : KeepsResults step) (h : Looped step bars s calls outcome)
    {failure : Failure} (houtcome : outcome = .error failure s') :
    ∃ completed c, calls = completed ++ [c] ∧ completed.length < bars.length ∧
      c.Stops failure s' ∧ Appends s.1.results completed s'.1.results := by
  induction h with
  | done s => cases houtcome
  | stops h =>
    cases houtcome
    exact ⟨[], _, rfl, by simp, h, by rw [stops_results hstep h]; exact .nil _⟩
  | next h hrest ih =>
    obtain ⟨completed, c, rfl, hlength, hstops, happends⟩ := ih houtcome
    exact ⟨_ :: completed, c, rfl, by simpa using hlength, hstops,
      leads_appends hstep h happends⟩

end Looped

/-- What a run over `k` bars from the bar `first` on does, told by the calls of its step. -/
structure Told (step : RunM α σ (StepOutput α)) (first k : Nat) (s : Context α × σ)
    (calls : List (StepCall α σ)) (outcome : EStateM.Result Failure (Context α × σ) Unit) :
    Prop where
  /-- The log is one of calls of this step. -/
  called : ∀ c ∈ calls, c.ending = step c.start
  /-- The bars in their order, from the first one on. -/
  bars : calls.map (·.start.1.bar) = List.range' first calls.length
  /-- Every view ends at the bar of the call. -/
  views : ∀ c ∈ calls, ∀ (β : Type) (f : Bar α → β), (c.start.1.snapshot.view f).toList =
    if c.start.1.bar < c.start.1.market.size then
      (c.start.1.market.bars.toList.take (c.start.1.bar + 1)).map f else []
  /-- It is the market of the run, unless the step exchanges it. -/
  market : (∀ s output s', step s = .ok output s' → s'.1.market = s.1.market) →
    ∀ c ∈ calls, c.start.1.market = s.1.market
  begins : ∀ c ∈ calls.head?, c.start = (enter s.1 first, s.2)
  /-- A call starts where the one before has led, with the stores carried on once. -/
  goesOn : calls.IsChain fun c d =>
    ∃ s, c.Leads s ∧ d.start = (enter s.1 (c.start.1.bar + 1), s.2)
  succeeds : ∀ s', outcome = .ok () s' →
    calls.length = k ∧ Appends s.1.results calls s'.1.results ∧
      (calls = [] ∧ s' = s ∨ ∃ c ∈ calls.getLast?, c.Leads s')
  /-- The rows are those of the bars before the one that fails, whose stores stay as they are. -/
  fails : ∀ failure s', outcome = .error failure s' →
    ∃ completed c, calls = completed ++ [c] ∧ c.start.1.bar < first + k ∧
      c.start.1.bar - first = completed.length ∧ c.Stops failure s' ∧
        Appends s.1.results completed s'.1.results

theorem Looped.told {step : RunM α σ (StepOutput α)} (hstep : KeepsResults step) {first k : Nat}
    {s : Context α × σ} {calls : List (StepCall α σ)}
    {outcome : EStateM.Result Failure (Context α × σ) Unit}
    (h : Looped step (List.range' first k) s calls outcome) :
    Told step first k s calls outcome := by
  have hlength : calls.length ≤ k := by simpa using h.length_le
  have hbars : calls.map (·.start.1.bar) = List.range' first calls.length := by
    rw [h.bars_eq, List.take_range'_of_length_ge hlength]
  have hbar : ∀ (i : Nat) (hi : i < calls.length), calls[i].start.1.bar = first + i := by
    intro i hi
    have hget := congrArg (·[i]?) hbars
    simpa [hi] using hget
  refine ⟨h.called, hbars, fun c _ β f => Snapshot.toList_view _ f, h.market, ?_, ?_, ?_, ?_⟩
  · intro c hc
    have hfirst : c.start.1.bar = first := by
      cases calls with
      | nil => cases hc
      | cons d rest => cases hc; exact hbar 0 (by simp)
    rw [h.begins c hc, hfirst]
  · rw [List.isChain_iff_getElem]
    intro i hi
    obtain ⟨e, hleads, hstart⟩ := List.isChain_iff_getElem.1 h.goesOn i hi
    refine ⟨e, hleads, hstart.trans ?_⟩
    rw [hbar (i + 1) hi, hbar i (by omega)]
    rfl
  · intro s' hs'
    simpa using h.succeeds hstep hs'
  · intro failure s' hs'
    obtain ⟨completed, c, rfl, hcompleted, hstops, happends⟩ := h.fails hstep hs'
    have hc := hbar completed.length (by simp)
    simp only [List.getElem_concat_length] at hc
    rw [List.length_range'] at hcompleted
    exact ⟨completed, c, rfl, by omega, by omega, hstops, happends⟩

/-- **The loop of a run.** A step that does not write the results is called at the bars from the
first of the window on, each at most once. A run that completes has called it at all of them and has
one row more for each; a run that stops has the rows of the bars before the one that failed, and
the context as the failing call has left it. -/
theorem run_told (step : RunM α σ (StepOutput α)) (hstep : KeepsResults step) (ctx : Context α)
    (own : σ) (count : Option Nat) :
    let total := ctx.market.size
    let k := min (count.getD total) total
    ∃ calls, run (recorded step) count (ctx, own, []) = withLog calls (run step count (ctx, own)) ∧
      Told step (total - k) k (ctx, own) calls (run step count (ctx, own)) := by
  intro total k
  have hwindow : total - (total - k) = k := by omega
  obtain ⟨calls, hlooped, hlog⟩ :=
    visitAll_recorded step (List.range' (total - k) (total - (total - k))) (ctx, own)
  refine ⟨calls, hlog [], ?_⟩
  rw [hwindow] at hlooped
  have hrun : run step count (ctx, own) =
      visitAll step (List.range' (total - k) (total - (total - k))) (ctx, own) := rfl
  rw [hrun, hwindow]
  exact hlooped.told hstep

/-- A step that counts its calls and gives a single value at two of them, then a named one. -/
def namingThird : RunM Float Nat (StepOutput Float) := fun s =>
  let output := if s.2 < 2 then .scalar (.number 1) else .named [("close", .number 1)]
  .ok output ({ s.1 with stores := s.1.stores.set .states 0 1 }, s.2 + 1)

theorem namingThird_keepsResults : KeepsResults namingThird where
  ok s output s' h := by
    cases h
    rfl
  error s failure s' h := by cases h

/-- Over the last three of four bars, on a context that has a row already: the output of the last
bar is rejected after the call has succeeded. -/
theorem run_told_namingThird :
    let m : Market Float := ⟨#[⟨0, 1, 2, 3, 1, 2, 5⟩, ⟨1, 2, 2, 4, 2, 4, 5⟩, ⟨2, 3, 4, 4, 3, 3, 5⟩,
      ⟨3, 4, 3, 5, 3, 4, 5⟩]⟩
    let ctx : Context Float :=
      { Context.fresh m .standard true with results := ⟨1, .scalar #[0]⟩ }
    KeepsResults namingThird ∧
      (∃ s, run namingThird (some 3) (ctx, 0) = .error (.resultShape 3) s ∧
        s.1.results.rows = 3 ∧ s.2 = 3) ∧
      ∃ calls, run (recorded namingThird) (some 3) (ctx, 0, []) =
          withLog calls (run namingThird (some 3) (ctx, 0)) ∧
        Told namingThird 1 3 (ctx, 0) calls (run namingThird (some 3) (ctx, 0)) := by
  intro m ctx
  exact ⟨namingThird_keepsResults, ⟨_, rfl, rfl, rfl⟩,
    run_told namingThird namingThird_keepsResults ctx 0 (some 3)⟩

end Engine

end BarScript
