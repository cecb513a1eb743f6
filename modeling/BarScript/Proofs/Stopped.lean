import Mathlib
import BarScript.Arith.Double
import BarScript.Proofs.History

/-!
# What a failed bar leaves

Evaluation changes the current values of computed series and the books of the indicators, and
nothing else (`Evaluated`), and an instruction evaluates before it assigns or draws. So a step that
fails has carried out the instructions before the one that fails, and of that one no more than
evaluation (`Program.stops`). A run that fails in a step ends in just that context (`failed_bar`);
what the completed instructions have written stays there, and the next attempt at the bar finds it
(`failed_bar_retried`).
-/

namespace BarScript

variable {α : Type}

/-- What a step with the effects `es` may change in a context: outputs, cache, pending lookbacks,
and the current values of the slots that the effects write. -/
structure Touched (es : List Effect) (c c' : Context α) : Prop where
  frame : { c' with
    stores := c.stores, cache := c.cache, warmup := c.warmup, outputs := c.outputs } = c
  slot : ∀ a, .set a.1 a.2 ∉ es → c'.stores.slot a = c.stores.slot a
  earlier : ∀ a, (c'.stores.slot a).toList.dropLast = (c.stores.slot a).toList.dropLast
  maxPeriod : c'.maxPeriod = c.maxPeriod
  pending : c.warmup.pending ≤ c'.warmup.pending

/-- What evaluation may change of that. -/
structure Evaluated (es : List Effect) (c c' : Context α) : Prop extends Touched es c c' where
  assigned : ∀ a, a.1 ≠ .computed → c'.stores.slot a = c.stores.slot a
  outputs : c'.outputs = c.outputs

namespace Touched

variable {es es' : List Effect} {c c₁ c' : Context α}

theorem refl (es : List Effect) (c : Context α) : Touched es c c :=
  ⟨rfl, fun _ _ => rfl, fun _ => rfl, rfl, Nat.le_refl _⟩

theorem mono (h : Touched es c c') (hes : es ⊆ es') : Touched es' c c' :=
  { h with slot := fun a ha => h.slot a fun hmem => ha (hes hmem) }

theorem bar (h : Touched es c c') : c'.bar = c.bar := by
  have hframe := congrArg Context.bar h.frame
  exact hframe

theorem market (h : Touched es c c') : c'.market = c.market := by
  have hframe := congrArg Context.market h.frame
  exact hframe

theorem results (h : Touched es c c') : c'.results = c.results := by
  have hframe := congrArg Context.results h.frame
  exact hframe

theorem now (h : Touched es c c') : c'.now = c.now := by
  show (Snapshot.mk c'.market c'.bar).now = (Snapshot.mk c.market c.bar).now
  rw [h.market, h.bar]

theorem trans (h : Touched es c c₁) (h' : Touched es c₁ c') : Touched es c c' where
  frame := by
    have hframe := congrArg
      (fun d => { d with
        stores := c.stores, cache := c.cache, warmup := c.warmup, outputs := c.outputs }) h'.frame
    exact hframe.trans h.frame
  slot a ha := (h'.slot a ha).trans (h.slot a ha)
  earlier a := (h'.earlier a).trans (h.earlier a)
  maxPeriod := h'.maxPeriod.trans h.maxPeriod
  pending := Nat.le_trans h.pending h'.pending

theorem set (h : Touched es c c') {bank : Bank} {id : Nat} (hmem : .set bank id ∈ es) (x : α) :
    Touched es c { c' with stores := c'.stores.set bank id x } where
  frame := h.frame
  slot a ha := by
    show (c'.stores.set bank id x).slot a = _
    rw [Stores.slot_set, if_neg (by rintro rfl; exact ha hmem), h.slot a ha]
  earlier a := by
    show ((c'.stores.set bank id x).slot a).toList.dropLast = _
    rw [Stores.slot_set]
    split
    · rename_i heq
      rw [Series.toList_setCurrent, List.dropLast_concat, ← heq, h.earlier]
    · exact h.earlier a
  maxPeriod := h.maxPeriod
  pending := h.pending

theorem draw (h : Touched es c c') (o : Outputs α) : Touched es c { c' with outputs := o } :=
  ⟨h.frame, h.slot, h.earlier, h.maxPeriod, h.pending⟩

variable [Arith α]

theorem call (h : Touched es c c') (k : StudyCall) (nums : List α) :
    Touched es c (c'.absorb (k.perform nums c').2) := by
  have hsees : k.Sees c' c' k := by
    refine ⟨rfl, List.forall₂_same.2 fun b _ => ?_⟩
    cases b with
    | series s => exact .series rfl
    | number n => exact .number n n
    | absent => exact .absent
  obtain ⟨-, ⟨n, hn, -⟩, -⟩ := StudyCallOf.perform_sees hsees ⟨_, _, _, rfl⟩ id
    Option.map_id_apply.symm (by rintro h h' hh hh'; rw [Option.some.inj (hh.symm.trans hh')]) nums
  refine ⟨h.frame, h.slot, h.earlier, ?_, ?_⟩
  · show (k.perform nums c').2.warmup.maxPeriod = _
    rw [hn]
    exact h.maxPeriod
  · show _ ≤ (k.perform nums c').2.warmup.pending
    rw [hn]
    exact Nat.le_trans h.pending (Nat.le_max_left _ _)

/-- What steps with the effects `all` have reached from `c`, each context beside itself. -/
theorem simulation (all : List Effect) (c : Context α) :
    Simulation fun es (d d' : Context α) => d' = d ∧ es ⊆ all ∧ Touched all c d where
  bar h := by rw [h.1]
  clock h k := by rw [h.1]
  price h p := by rw [h.1]
  stores h := by rw [h.1]
  outputs h := by rw [h.1]
  results h := by rw [h.1]
  skip h := ⟨h.1, fun _ he => h.2.1 (.tail _ he), h.2.2⟩
  written h x := ⟨by rw [h.1], fun _ he => h.2.1 (.tail _ he), h.2.2.set (h.2.1 (.head _)) x⟩
  called h nums := ⟨by rw [h.1], by rw [h.1], fun _ he => h.2.1 (.tail _ he), h.2.2.call _ nums⟩
  drawn h o := ⟨by rw [h.1], h.2.1, h.2.2.draw o⟩

end Touched

namespace Evaluated

variable {es es' : List Effect} {c c₁ c' : Context α}

theorem refl (es : List Effect) (c : Context α) : Evaluated es c c :=
  ⟨.refl es c, fun _ _ => rfl, rfl⟩

theorem mono (h : Evaluated es c c') (hes : es ⊆ es') : Evaluated es' c c' :=
  { h with toTouched := h.toTouched.mono hes }

theorem trans (h : Evaluated es c c₁) (h' : Evaluated es c₁ c') : Evaluated es c c' :=
  ⟨h.toTouched.trans h'.toTouched, fun a ha => (h'.assigned a ha).trans (h.assigned a ha),
    h'.outputs.trans h.outputs⟩

variable [Arith α]

/-- What evaluation with the effects `all` has reached from `c`, each context beside itself. -/
theorem correspondence {all : List Effect}
    (hall : ∀ bank id, .set bank id ∈ all → bank = .computed) (c : Context α) :
    Correspondence .id .all (fun es (d d' : Context α) => d' = d ∧ es ⊆ all ∧ Evaluated all c d)
      (fun d d' => d' = d ∧ Evaluated all c d) where
  bar h := by rw [h.1]
  clock h k := by rw [h.1]
  price h p := by rw [h.1]
  slot h a _ := by rw [h.1]; rfl
  skip h := ⟨h.1, fun _ he => h.2.1 (.tail _ he), h.2.2⟩
  written {bank id es d d'} h _ x := by
    rintro _ _ ⟨⟩
    obtain ⟨rfl, hes, h⟩ := h
    have hmem := hes (.head _)
    refine ⟨rfl, fun _ he => hes (.tail _ he), h.toTouched.set hmem x, fun a ha => ?_, h.outputs⟩
    show (d'.stores.set bank id x).slot a = _
    rw [Stores.slot_set, if_neg, h.assigned a ha]
    rintro rfl
    exact ha (hall bank id hmem)
  called {k k' es d d'} h _ hhandle hsees nums := by
    obtain ⟨rfl, hes, h⟩ := h
    rw [StudyCallOf.perform_eq hsees (hhandle.trans Option.map_id_apply)]
    exact ⟨rfl, rfl, fun _ he => hes (.tail _ he), h.toTouched.call k nums, h.assigned, h.outputs⟩
  failed h := ⟨h.1, h.2.2⟩

end Evaluated

/-! ## Computations that fail -/

/-- However `m` ends, it does no more than evaluate. -/
def Evaluates {β : Type} (es : List Effect) (m : EvalM α β) : Prop :=
  ∀ c, match m c with
    | .ok _ c' => Evaluated es c c'
    | .error _ c' => Evaluated es c c'

/-- If `m` fails, it has done no more than evaluate. -/
def FailsEarly {β : Type} (es : List Effect) (m : EvalM α β) : Prop :=
  ∀ c failure c', m c = .error failure c' → Evaluated es c c'

theorem eval_bind_error {β γ : Type} {m : EvalM α β} {f : β → EvalM α γ} {c c' : Context α}
    {failure : Failure} (h : (m >>= f) c = .error failure c') :
    m c = .error failure c' ∨ ∃ x c₁, m c = .ok x c₁ ∧ f x c₁ = .error failure c' := by
  replace h : EStateM.bind m f c = .error failure c' := h
  unfold EStateM.bind at h
  cases hm : m c with
  | ok x c₁ => rw [hm] at h; exact .inr ⟨x, c₁, rfl, h⟩
  | error f c₁ => rw [hm] at h; cases h; exact .inl rfl

section

variable {β γ : Type} {es es' : List Effect} {m : EvalM α β} {f : β → EvalM α γ}

theorem Evaluates.mono (hm : Evaluates es m) (hes : es ⊆ es') : Evaluates es' m := by
  intro c
  have h := hm c
  cases hc : m c with
  | ok x c' => rw [hc] at h; exact h.mono hes
  | error failure c' => rw [hc] at h; exact h.mono hes

theorem Evaluates.evaluated (hm : Evaluates es m) {c c' : Context α} {x : β}
    (h : m c = .ok x c') : Evaluated es c c' := by
  have hc := hm c
  rwa [h] at hc

theorem Evaluates.failsEarly (hm : Evaluates es m) : FailsEarly es m := by
  intro c failure c' hc
  have h := hm c
  rw [hc] at h
  exact h

/-- What comes after evaluation fails early, too. -/
theorem Evaluates.bind (hm : Evaluates es m) (hf : ∀ x, FailsEarly es (f x)) :
    FailsEarly es (m >>= f) := by
  intro c failure c' hc
  rcases eval_bind_error hc with hfail | ⟨x, c₁, hx, hfail⟩
  · exact hm.failsEarly c failure c' hfail
  · have h := hm c
    rw [hx] at h
    exact h.trans (hf x c₁ failure c' hfail)

theorem FailsEarly.pure (x : β) : FailsEarly es (pure x : EvalM α β) := by
  rintro c failure c' ⟨⟩

/-- What relates contexts to themselves tells how a computation ends. -/
theorem Evaluates.of_lockstep
    (h : ∀ c, Lockstep (fun es' (d d' : Context α) => d' = d ∧ es' ⊆ es ∧ Evaluated es c d)
      (fun d d' => d' = d ∧ Evaluated es c d) (es ++ []) [] m m) : Evaluates es m := by
  intro c
  have hc := h c c c ⟨rfl, by simp, .refl es c⟩
  cases hm : m c with
  | ok x c' => rw [hm] at hc; exact hc.2.2.2
  | error failure c' => rw [hm] at hc; exact hc.2.2

variable [Arith α]

theorem Node.evaluates (n : Node) : Evaluates n.effects (n.eval : EvalM α α) :=
  .of_lockstep fun c => (Evaluated.correspondence (fun _ _ => n.set_computed) c).node n
    n.renamed_id []

theorem StudyCallOf.evaluates (k : StudyCall) : Evaluates k.effects (k.eval : EvalM α _) := by
  refine .of_lockstep fun c => (Evaluated.correspondence (fun bank id h => ?_) c).call
    k.renamed_id []
  rw [effects, List.mem_append] at h
  exact h.elim (Bound.all_set_computed k.args) (by simp)

theorem OptionNode.set_computed (o : OptionNode) {bank : Bank} {id : Nat}
    (h : .set bank id ∈ o.effects) : bank = .computed := by
  induction o with
  | text s => simp [effects] at h
  | flag b => simp [effects] at h
  | number n => exact n.set_computed h
  | rgb channels => exact Node.all_set_computed channels h
  | newColor base alpha ih =>
    rw [effects, List.mem_append] at h
    exact h.elim ih (Node.offset_set_computed alpha)

theorem evaluates_options (os : OptionNodes) :
    Evaluates (optionEffects os) (evalOptions os ∅ : EvalM α _) := by
  have hall : ∀ bank id, .set bank id ∈ optionEffects os → bank = .computed := by
    intro bank id h
    obtain ⟨o, -, h⟩ := List.mem_flatMap.1 h
    exact o.2.set_computed h
  exact .of_lockstep fun c => (Evaluated.correspondence hall c).options
    (List.forall₂_same.2 fun o _ => ⟨rfl, o.2.renamed_id⟩) ∅ []

end

/-! ## Instructions -/

section

variable [Arith α] (plotted : Plotted α)

/-- A drawing is made when its values and options have been evaluated. -/
theorem Drawing.failsEarly (d : Drawing) : FailsEarly d.effects (d.perform plotted) := by
  have draw (f : Options α → Outputs α → Int → Outputs α) (os : OptionNodes) (x : Plotted α)
      {es : List Effect} (hes : optionEffects os ⊆ es) : FailsEarly es (do
        let options ← evalOptions os ∅
        drawAt (f options)
        return x) :=
    ((evaluates_options os).mono hes).bind fun _ => by rintro c failure c' ⟨⟩
  cases d with
  | plot value title os char =>
    rw [Drawing.effects]
    exact (value.evaluates.mono (by simp)).bind fun v => draw _ os _ (by simp)
  | candle a b c d title os bar =>
    rw [Drawing.effects]
    have part {n : Node} {es : List Effect} (hn : n.effects ⊆ es) {f : α → EvalM α (Plotted α)}
        (hf : ∀ x, FailsEarly es (f x)) : FailsEarly es (n.eval >>= f) :=
      (n.evaluates.mono hn).bind hf
    exact part (fun _ h => by simp [h]) fun _ => part (fun _ h => by simp [h]) fun _ =>
      part (fun _ h => by simp [h]) fun _ => part (fun _ h => by simp [h]) fun _ =>
      draw _ os _ fun _ h => by simp [h]
  | fill plot1 plot2 os => exact draw _ os _ (List.Subset.refl _)
  | hline price title os =>
    rw [Drawing.effects]
    exact (price.evaluates.mono (by simp)).bind fun v => draw _ os _ (by simp)
  | indicator title shortTitle overlay => rintro c failure c' ⟨⟩

/-- Slots are assigned when their values have been evaluated. -/
theorem Op.failsEarly (o : Op) : FailsEarly o.effects (o.exec plotted) := by
  have assign (bank : Bank) (id : Nat) (value : Node) :
      FailsEarly (value.effects ++ [.set bank id]) (do
        let v ← value.eval
        setSlot bank id v
        return plotted : EvalM α _) :=
    (value.evaluates.mono (by simp)).bind fun v => by rintro c failure c' ⟨⟩
  cases o with
  | set bank id value => exact assign bank id value
  | init bank id value =>
    intro c failure c' hc
    replace hc : (if ((c.stores.bank bank).series id).isEmpty then do
        let v ← value.eval
        setSlot bank id v
        return plotted else return plotted : EvalM α _) c = .error failure c' := hc
    split at hc
    · exact assign bank id value c failure c' hc
    · cases hc
  | unpack call targets =>
    rw [Op.effects]
    exact (call.evaluates.mono (by simp)).bind fun v => by rintro c failure c' ⟨⟩
  | eval n => exact n.evaluates.bind fun v => .pure _
  | draw d => exact d.failsEarly plotted

theorem failsEarly_fields (fs : List (String × Node)) :
    FailsEarly (fs.flatMap (·.2.effects)) (evalFields fs : EvalM α _) := by
  induction fs with
  | nil => exact .pure _
  | cons f fs ih =>
    rw [evalFields, List.flatMap_cons]
    refine (f.2.evaluates.mono (by simp)).bind fun v c failure c' hc => ?_
    rcases eval_bind_error hc with hfail | ⟨_, _, _, hdone⟩
    · exact (ih c failure c' hfail).mono (by simp)
    · cases hdone

theorem Program.output_failsEarly (p : Program) :
    FailsEarly (p.result.elim [] Result.effects) (p.output plotted) := by
  unfold output
  rcases p.result with _ | ⟨n⟩ | ⟨fs⟩
  · exact .pure _
  · exact n.evaluates.bind fun v => .pure _
  · intro c failure c' hc
    rcases eval_bind_error hc with hfail | ⟨_, _, _, hdone⟩
    · exact failsEarly_fields fs c failure c' hfail
    · cases hdone

/-- The instruction that fails. -/
theorem Op.execAll_error {ops : List Op} {plotted : Plotted α} {c c' : Context α}
    {failure : Failure} (h : Op.execAll ops plotted c = .error failure c') :
    ∃ done o rest plotted' c₁, ops = done ++ o :: rest ∧
      Op.execAll done plotted c = .ok plotted' c₁ ∧ o.exec plotted' c₁ = .error failure c' := by
  induction ops generalizing plotted c with
  | nil => cases h
  | cons o ops ih =>
    rcases eval_bind_error h with hfail | ⟨plotted', c₁, hexec, hfail⟩
    · exact ⟨[], o, ops, plotted, c, rfl, rfl, hfail⟩
    · obtain ⟨done, o', rest, plotted'', c₂, rfl, hdone, hfail⟩ := ih hfail
      exact ⟨o :: done, o', rest, plotted'', c₂, rfl, eval_bind_of_ok hexec hdone, hfail⟩

end

/-- Instructions change what they may touch. -/
theorem Op.execAll_touched [Arith α] {os : List Op} {plotted plotted' : Plotted α}
    {c c' : Context α} (h : Op.execAll os plotted c = .ok plotted' c') :
    Touched (os.flatMap Op.effects) c c' := by
  have hlock := (Touched.simulation (os.flatMap Op.effects) c).execution.ops
    (List.forall₂_same.2 fun o _ => o.renamed_id) plotted [] c c
    ⟨rfl, by rw [List.append_nil]; exact List.Subset.refl _, .refl _ _⟩
  rw [h] at hlock
  exact hlock.2.2.2

/-! ## Steps and runs -/

variable [Arith α]

/-- What a step has done that fails: the instructions `done`, with all that they write, and the
evaluation of the next one, or of the result. -/
inductive Program.Stops (p : Program) (c : Context α) (failure : Failure) (c' : Context α) : Prop
  | statement {done rest : List Op} {o : Op} {plotted : Plotted α} {c₁ : Context α}
      (ops : p.ops = done ++ o :: rest) (completed : Op.execAll done [] c = .ok plotted c₁)
      (stores : c₁.stores = c.stores.after (Op.traceAll done [] c))
      (fails : o.exec plotted c₁ = .error failure c') (evaluated : Evaluated o.effects c₁ c')
  | result {plotted : Plotted α} {c₁ : Context α}
      (completed : Op.execAll p.ops [] c = .ok plotted c₁)
      (stores : c₁.stores = c.stores.after (Op.traceAll p.ops [] c))
      (fails : p.output plotted c₁ = .error failure c')
      (evaluated : Evaluated (p.result.elim [] Result.effects) c₁ c')

theorem Program.stops {p : Program} {c c' : Context α} {failure : Failure}
    (h : p.step c = .error failure c') : p.Stops c failure c' := by
  rcases eval_bind_error h with hops | ⟨plotted, c₁, hops, houtput⟩
  · obtain ⟨done, o, rest, plotted, c₁, hsplit, hdone, hfail⟩ := Op.execAll_error hops
    exact .statement hsplit hdone ((Faithful.ops done []).stores hdone) hfail
      (o.failsEarly plotted c₁ failure c' hfail)
  · exact .result hops ((Faithful.ops p.ops []).stores hops) houtput
      (p.output_failsEarly plotted c₁ failure c' houtput)

/-- However a step ends, results and older values are those that it started with. -/
theorem Program.step_touched (p : Program) (c : Context α) :
    match p.step c with
    | .ok _ c' => Touched p.effects c c'
    | .error _ c' => Touched p.effects c c' := by
  have hstep := (Touched.simulation p.effects c).step p c c
    ⟨rfl, List.Subset.refl _, .refl _ _⟩
  cases h : p.step c with
  | ok out c' => rw [h] at hstep; exact hstep.2.2.2
  | error failure c' => rw [h] at hstep; exact hstep.2.2.2

namespace Runner

/-- The bar at which visits fail. -/
theorem visits_error {p : Program} {bars : List Nat} {ctx ctx' : Context α} {failure : Failure}
    (h : visits p bars ctx = (.error failure, ctx')) :
    ∃ before bar rest c, bars = before ++ bar :: rest ∧ visits p before ctx = (.ok (), c) ∧
      visits p [bar] c = (.error failure, ctx') := by
  induction bars generalizing ctx with
  | nil => cases h
  | cons bar bars ih =>
    rw [← List.singleton_append, visits_append] at h
    cases hbar : visits p [bar] ctx with
    | mk outcome ctx₁ =>
      rw [hbar] at h
      cases outcome with
      | error f => cases h; exact ⟨[], bar, bars, ctx, rfl, rfl, hbar⟩
      | ok _ =>
        obtain ⟨before, bar', rest, c, rfl, hbefore, hfail⟩ := ih h
        refine ⟨bar :: before, bar', rest, c, rfl, ?_, hfail⟩
        rw [← List.singleton_append, visits_append, hbar]
        exact hbefore

end Runner

/-- **A failed bar.** A run that fails has completed bars, and stops in the step of the next one, in
the context that this step has made of the one in which the bar was entered; or the output of the
step does not fit the results. -/
theorem failed_bar {r r' : Runner α} {ctx : Context α} {source : Option String}
    {script : CompiledScript} (count : Option Nat) (hcompile : r.compile? source = .ok r')
    (hscript : r'.compiled = some script) :
    let p := script.program
    let start := { ctx with market := r'.market }
    let ctx' := (r.runIn ctx source count).2.1
    ∀ failure, (r.runIn ctx source count).1 = .error failure →
      ∃ before bar rest c, Runner.window r'.market count = before ++ bar :: rest ∧
        Runner.visits p before start = (.ok (), c) ∧
        (p.step (Engine.enter c bar) = .error failure ctx' ∧
            p.Stops (Engine.enter c bar) failure ctx' ∧
            Touched p.effects (Engine.enter c bar) ctx' ∨
          ∃ output, p.step (Engine.enter c bar) = .ok output ctx' ∧
            ctx'.results.push ctx'.bar output = .error failure) := by
  intro p start ctx' failure hfail
  cases hvisits : Runner.visits p (Runner.window r'.market count) start with
  | mk outcome ended =>
    have hrun : r.runIn ctx source count = (outcome, ended, r') := by
      simp only [Runner.runIn, hcompile, hscript, Runner.runProgram_eq]
      exact congrArg (fun v => (v.1, v.2, r')) hvisits
    simp only [ctx', hrun] at hfail ⊢
    subst hfail
    obtain ⟨before, bar, rest, c, hbars, hbefore, hbar⟩ := Runner.visits_error hvisits
    refine ⟨before, bar, rest, c, hbars, hbefore, ?_⟩
    rw [Runner.visits_bar] at hbar
    have htouched := p.step_touched (Engine.enter c bar)
    cases hstep : p.step (Engine.enter c bar) with
    | error f c' =>
      rw [hstep] at hbar htouched
      cases hbar
      exact .inl ⟨rfl, Program.stops hstep, htouched⟩
    | ok output c' =>
      rw [hstep] at hbar
      dsimp only at hbar
      cases hpush : c'.results.push c'.bar output with
      | ok results => rw [Engine.collect_ok hpush] at hbar; cases hbar
      | error f =>
        rw [Engine.collect_error hpush] at hbar
        cases hbar
        exact .inr ⟨output, rfl, hpush⟩

/-- A state that changes its sign at every bar, as the offset of a history access. -/
def flippedSource : String := "var n = -1\nn := n * -1\nplot(ta.sma(close, 2))\nreturn close[n]"

def flippedProgram : Program :=
  let n : Node := .read (.slot .states 0) none
  let minusOne : Node := .number (.neg (.ofNat 1))
  let mean : Node := .study ⟨.sma, [.series (.price .close), .number (.number (.ofNat 2))], some 0⟩
  ⟨[.init .states 0 minusOne, .set .states 0 (.binary .mul n minusOne),
    .draw (.plot mean "Plot" [] false)], some (.single (.read (.price .close) (some n))), ⟨4, 1, 0, 1⟩⟩

theorem compile_flippedSource : compile flippedSource = .ok flippedProgram := by
  let minusOne : Expr := .number (.neg (.ofNat 1))
  have hparse : parse flippedSource = .ok
      [.declare .persistent "n" minusOne 0,
        .reassign "n" (.binary .mul (.name "n" 16) minusOne) 11,
        .expr (.call ⟨"plot", [⟨none, .call ⟨"ta.sma",
          [⟨none, .name "close" 35, 35⟩, ⟨none, .number (.ofNat 2), 42⟩], 28⟩, 28⟩], 23⟩),
        .result (.single (.history (.name "close" 53) (.name "n" 59) 58)) 46] := by
    with_unfolding_all rfl
  rw [compile, hparse]
  with_unfolding_all rfl

/-- The run fails at the second bar, at which the state is negative. -/
theorem failed_bar_flipped :
    let bars : List (Bar Float) := [⟨0, 1, 2, 2, 2, 2, 5⟩, ⟨1, 2, 4, 4, 4, 4, 5⟩]
    let r := Runner.configured bars true .standard
    let script : CompiledScript := ⟨flippedSource, flippedProgram⟩
    let r' := { r with compiled := some script }
    let failure := Failure.script 1 "history offset must not be negative, got -1"
    let ctx' := (r.runIn r.context (some flippedSource) none).2.1
    r.compile? (some flippedSource) = .ok r' ∧ r'.compiled = some script ∧
      (r.runIn r.context (some flippedSource) none).1 = .error failure ∧
      ∃ before bar rest c, Runner.window r'.market none = before ++ bar :: rest ∧
        Runner.visits flippedProgram before { r.context with market := r'.market } = (.ok (), c) ∧
        (flippedProgram.step (Engine.enter c bar) = .error failure ctx' ∧
            flippedProgram.Stops (Engine.enter c bar) failure ctx' ∧
            Touched flippedProgram.effects (Engine.enter c bar) ctx' ∨
          ∃ output, flippedProgram.step (Engine.enter c bar) = .ok output ctx' ∧
            ctx'.results.push ctx'.bar output = .error failure) := by
  intro bars r script r' failure ctx'
  have hmarket : Market.ofBars bars = ⟨bars.toArray⟩ := Market.ofBars_ascending (by decide)
  have hr : r = ⟨⟨bars.toArray⟩, none, true, .standard⟩ := by rw [← hmarket]; rfl
  have hcompile : r.compile? (some flippedSource) = .ok r' :=
    Runner.compile_eq compile_flippedSource (.inl rfl)
  have hfail : (r.runIn r.context (some flippedSource) none).1 = .error failure := by
    rw [Runner.runIn_some compile_flippedSource (.inl rfl), hr]
    decide +kernel
  exact ⟨hcompile, rfl, hfail, failed_bar none hcompile rfl failure hfail⟩

/-- After the failed attempt at the second bar the state, the plot and the pending lookback are not
those with which the bar started, and the next attempt succeeds. -/
theorem failed_bar_retried :
    let bars : List (Bar Float) := [⟨0, 1, 2, 2, 2, 2, 5⟩, ⟨1, 2, 4, 4, 4, 4, 5⟩]
    let r := Runner.configured bars true .standard
    let start := Engine.enter (Runner.visits flippedProgram [0] r.context).2 1
    let failed := r.runIn r.context (some flippedSource) none
    let books (c : Context Float) : List Float × List Nat × Nat :=
      ((c.stores.slot (.states, 0)).toList, c.outputs.plots.map (·.data.size), c.warmup.pending)
    (Runner.visits flippedProgram [0] r.context).1 = .ok () ∧
      failed.1 = .error (.script 1 "history offset must not be negative, got -1") ∧
      books start = ([1, 1], [1], 0) ∧ books failed.2.1 = ([1, -1], [2], 2) ∧
      (failed.2.2.runIn failed.2.1 none (some 1)).1 = .ok () := by
  intro bars r start failed books
  have hmarket : Market.ofBars bars = ⟨bars.toArray⟩ := Market.ofBars_ascending (by decide)
  have hr : r = ⟨⟨bars.toArray⟩, none, true, .standard⟩ := by rw [← hmarket]; rfl
  have hfailed : failed = r.ran ⟨flippedSource, flippedProgram⟩ r.context none :=
    Runner.runIn_some compile_flippedSource (.inl rfl) _ _
  simp only [hfailed, start, books, hr]
  decide +kernel

end BarScript
