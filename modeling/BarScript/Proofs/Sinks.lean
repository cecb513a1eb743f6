import BarScript.Proofs.Completion

/-!
# Sinks and rows stay aligned

A run keeps what it draws in sinks, by title, and what it gives in results, by row. An instruction
that draws under a title of its own appends one point a bar, with the time of the bar and with the
value of what it draws, as it stands when the instructions before have been executed
(`Medium.Drawn`). A program without a result gives the values that it plots, so that its columns are
the values of its sinks (`Program.columns_of_plots`). `sinks_aligned` says this of whole runs.
-/

namespace BarScript

/-! ## Sinks by title -/

namespace Sink

variable {α ρ : Type}

/-- The points that have been drawn under a title. -/
def under (title : String) : List (Sink α ρ) → List ρ
  | [] => []
  | s :: rest => if s.title = title then s.data.toList else under title rest

theorem under_record (t title : String) (options : Options α) (pane : Nat) (point : ρ)
    (ss : List (Sink α ρ)) : under t (record title options pane point ss) =
      if title = t then under t ss ++ [point] else under t ss := by
  induction ss with
  | nil => by_cases ht : title = t <;> simp [record, under, ht]
  | cons s rest ih =>
    rw [record]
    by_cases hs : s.title = title
    · by_cases ht : title = t <;> simp [under, hs, ht]
    · rw [if_neg hs]
      by_cases ht : s.title = t
      · have hne : title ≠ t := fun h => hs (ht.trans h.symm)
        rw [under, if_pos ht, if_neg hne, under, if_pos ht]
      · rw [under, if_neg ht, ih, under, if_neg ht]

theorem titles_record (title : String) (options : Options α) (pane : Nat) (point : ρ)
    (ss : List (Sink α ρ)) : (record title options pane point ss).map (·.title) =
      if title ∈ ss.map (·.title) then ss.map (·.title) else ss.map (·.title) ++ [title] := by
  induction ss with
  | nil => rfl
  | cons s rest ih =>
    rw [record]
    by_cases hs : s.title = title
    · simp [hs]
    · have hmem : title ∈ (s :: rest).map (·.title) ↔ title ∈ rest.map (·.title) := by
        simp [Ne.symm hs]
      rw [if_neg hs, List.map_cons, ih]
      by_cases hrest : title ∈ rest.map (·.title)
      · rw [if_pos hrest, if_pos (hmem.2 hrest), List.map_cons]
      · rw [if_neg hrest, if_neg (hrest ∘ hmem.1), List.map_cons, List.cons_append]

theorem under_of_mem {ss : List (Sink α ρ)} (hss : (ss.map (·.title)).Nodup) {s : Sink α ρ}
    (hs : s ∈ ss) : under s.title ss = s.data.toList := by
  induction ss with
  | nil => nomatch hs
  | cons s' rest ih =>
    obtain ⟨hnew, hrest⟩ := List.nodup_cons.1 hss
    rcases List.mem_cons.1 hs with rfl | hs
    · rw [under, if_pos rfl]
    · have hne : s'.title ≠ s.title := fun h => hnew (List.mem_map.2 ⟨s, hs, h.symm⟩)
      rw [under, if_neg hne, ih hrest hs]

end Sink

/-! ## What an instruction draws -/

variable {α : Type} [Arith α]

/-- The values of four prices. -/
def Candle.eval (opening high low close : Node) : EvalM α (Candle α) := do
  let opening ← opening.eval
  let high ← high.eval
  let low ← low.eval
  let close ← close.eval
  return ⟨opening, high, low, close⟩

/-- The outputs, and what has been plotted, after an instruction that starts in `c`. -/
inductive Op.Draws (c : Context α) (plotted : Plotted α) : Op → Outputs α → Plotted α → Prop
  | plot {value : Node} {title : String} {options : OptionNodes} {char : Bool} {v : α}
      {c₁ : Context α} (os : Options α) (computed : value.eval c = .ok v c₁) :
      Draws c plotted (.draw (.plot value title options char))
        (if char then c.outputs.plotChar c.now v title os else c.outputs.plot c.now v title os)
        (plotted ++ [(title, .number v)])
  | candle {opening high low close : Node} {title : String} {options : OptionNodes} {bar : Bool}
      {v : Candle α} {c₁ : Context α} (os : Options α)
      (computed : Candle.eval opening high low close c = .ok v c₁) :
      Draws c plotted (.draw (.candle opening high low close title options bar))
        (if bar then c.outputs.plotBar c.now v title os else c.outputs.plotCandle c.now v title os)
        plotted
  | fill {plot1 plot2 : String} {options : OptionNodes} (os : Options α) :
      Draws c plotted (.draw (.fill plot1 plot2 options)) (c.outputs.fill plot1 plot2 os) plotted
  | hline {price : Node} {title : String} {options : OptionNodes} (x : α) (os : Options α) :
      Draws c plotted (.draw (.hline price title options)) (c.outputs.hline x title os) plotted
  | indicator {title shortTitle : Option String} {overlay : Option Bool} :
      Draws c plotted (.draw (.indicator title shortTitle overlay))
        (c.outputs.indicator title shortTitle overlay) plotted
  | nothing {o : Op} (quiet : ∀ d, o ≠ .draw d) : Draws c plotted o c.outputs plotted

/-- **A drawing** is made at the time of the bar, and what is evaluated for it draws nothing. -/
theorem Drawing.perform_draws {d : Drawing} {plotted plotted' : Plotted α} {c c' : Context α}
    (h : d.perform plotted c = .ok plotted' c') :
    Op.Draws c plotted (.draw d) c'.outputs plotted' := by
  have node {n : Node} {c c' : Context α} {x : α} (h : n.eval c = .ok x c') :
      c'.outputs = c.outputs ∧ c'.now = c.now :=
    have hn := n.evaluates.evaluated h
    ⟨hn.outputs, hn.now⟩
  have settings {options : OptionNodes} {c c' : Context α} {os : Options α}
      (h : evalOptions options ∅ c = .ok os c') : c'.outputs = c.outputs ∧ c'.now = c.now :=
    have hn := (evaluates_options options).evaluated h
    ⟨hn.outputs, hn.now⟩
  cases d with
  | plot value title options char =>
    obtain ⟨v, c₁, hv, h⟩ := eval_bind_ok h
    obtain ⟨os, c₂, hos, h⟩ := eval_bind_ok h
    cases h
    dsimp only
    rw [(settings hos).1, (settings hos).2, (node hv).1, (node hv).2]
    exact .plot os hv
  | candle opening high low close title options bar =>
    obtain ⟨x₁, c₁, h₁, h⟩ := eval_bind_ok h
    obtain ⟨x₂, c₂, h₂, h⟩ := eval_bind_ok h
    obtain ⟨x₃, c₃, h₃, h⟩ := eval_bind_ok h
    obtain ⟨x₄, c₄, h₄, h⟩ := eval_bind_ok h
    obtain ⟨os, c₅, hos, h⟩ := eval_bind_ok h
    cases h
    dsimp only
    rw [(settings hos).1, (settings hos).2, (node h₄).1, (node h₄).2, (node h₃).1, (node h₃).2,
      (node h₂).1, (node h₂).2, (node h₁).1, (node h₁).2]
    exact .candle os (eval_bind_of_ok h₁ (eval_bind_of_ok h₂ (eval_bind_of_ok h₃
      (eval_bind_of_ok h₄ rfl))))
  | fill plot1 plot2 options =>
    obtain ⟨os, c₁, hos, h⟩ := eval_bind_ok h
    cases h
    dsimp only
    rw [(settings hos).1]
    exact .fill os
  | hline price title options =>
    obtain ⟨x, c₁, hx, h⟩ := eval_bind_ok h
    obtain ⟨os, c₂, hos, h⟩ := eval_bind_ok h
    cases h
    dsimp only
    rw [(settings hos).1, (node hx).1]
    exact .hline x os
  | indicator title shortTitle overlay =>
    cases h
    exact .indicator

theorem Op.exec_draws {o : Op} {plotted plotted' : Plotted α} {c c' : Context α}
    (h : o.exec plotted c = .ok plotted' c') : o.Draws c plotted c'.outputs plotted' := by
  have quiet {o : Op} {c' : Context α} (ho : ∀ d, o ≠ .draw d) (hsame : c'.outputs = c.outputs) :
      o.Draws c plotted c'.outputs plotted := by
    rw [hsame]
    exact .nothing ho
  have assigned {o : Op} {bank : Bank} {id : Nat} {value : Node} (ho : ∀ d, o ≠ .draw d) (h : (do
      let v ← value.eval
      setSlot bank id v
      return plotted : EvalM α _) c = .ok plotted' c') : o.Draws c plotted c'.outputs plotted' := by
    obtain ⟨v, c₁, hv, h⟩ := eval_bind_ok h
    cases h
    exact quiet ho (value.evaluates.evaluated hv).outputs
  cases o with
  | set bank id value => exact assigned nofun h
  | init bank id value =>
    replace h : (if ((c.stores.bank bank).series id).isEmpty then do
        let v ← value.eval
        setSlot bank id v
        return plotted else return plotted : EvalM α _) c = .ok plotted' c' := h
    split at h
    · exact assigned nofun h
    · cases h
      exact quiet nofun rfl
  | unpack call targets =>
    obtain ⟨values, c₁, hvalues, h⟩ := eval_bind_ok h
    cases h
    exact quiet nofun (call.evaluates.evaluated hvalues).outputs
  | eval n =>
    obtain ⟨x, c₁, hx, h⟩ := eval_bind_ok h
    cases h
    exact quiet nofun (n.evaluates.evaluated hx).outputs
  | draw d => exact Drawing.perform_draws h

/-- Nothing is drawn for the result of a program. -/
theorem Program.output_outputs {p : Program} {plotted : Plotted α} {out : StepOutput α}
    {c c' : Context α} (h : p.output plotted c = .ok out c') : c'.outputs = c.outputs := by
  have fields {fs : List (String × Node)} {values : List (String × Value α)} {c c' : Context α}
      (h : evalFields fs c = .ok values c') : c'.outputs = c.outputs := by
    induction fs generalizing values c with
    | nil =>
      cases h
      rfl
    | cons f fs ih =>
      obtain ⟨v, c₁, hv, h⟩ := eval_bind_ok h
      obtain ⟨vs, c₂, hvs, h⟩ := eval_bind_ok h
      cases h
      rw [ih hvs, (f.2.evaluates.evaluated hv).outputs]
  unfold Program.output at h
  rcases hresult : p.result with _ | ⟨n⟩ | ⟨fs⟩ <;> rw [hresult] at h
  · cases h
    rfl
  · obtain ⟨x, c₁, hx, h⟩ := eval_bind_ok h
    cases h
    exact (n.evaluates.evaluated hx).outputs
  · obtain ⟨values, c₁, hvalues, h⟩ := eval_bind_ok h
    cases h
    exact fields hvalues

/-! ## Media -/

/-- `v` is the value of `m` at the bar that is entered in `c`, where `m` comes after the
instructions `before`. -/
def ValueAfter {β : Type} (before : List Op) (m : EvalM α β) (c : Context α) (v : β) : Prop :=
  ∃ plotted c₁ c₂, Op.execAll before [] c = .ok plotted c₁ ∧ m c₁ = .ok v c₂

/-- A kind of drawings that goes to sinks of its own. -/
structure Medium (α β ρ : Type) [Arith α] where
  sinks : Outputs α → List (Sink α ρ)
  /-- The title of an instruction that draws here, and what it draws. -/
  drawn? : Op → Option (String × EvalM α β)
  time : ρ → Int
  value : ρ → β
  silent : ∀ {c : Context α} {plotted plotted' : Plotted α} {o : Op} {outputs : Outputs α},
    o.Draws c plotted outputs plotted' → drawn? o = none → sinks outputs = sinks c.outputs
  records : ∀ {c : Context α} {plotted plotted' : Plotted α} {o : Op} {outputs : Outputs α}
    {title : String} {m : EvalM α β},
    o.Draws c plotted outputs plotted' → drawn? o = some (title, m) →
      ∃ point c₁ options pane, m c = .ok (value point) c₁ ∧ time point = c.now ∧
        sinks outputs = Sink.record title options pane point (sinks c.outputs)

omit [Arith α] in
/-- A fill changes the fills only. -/
theorem Outputs.fill_eq (o : Outputs α) (plot1 plot2 : String) (options : Options α) :
    o.fill plot1 plot2 options = { o with fills := (o.fill plot1 plot2 options).fills } := by
  unfold fill
  split <;> rfl

omit [Arith α] in
theorem Outputs.fill_sinks (o : Outputs α) (plot1 plot2 : String) (options : Options α) :
    (o.fill plot1 plot2 options).plots = o.plots ∧
      (o.fill plot1 plot2 options).candles = o.candles ∧
      (o.fill plot1 plot2 options).bars = o.bars := by
  rw [o.fill_eq]
  exact ⟨rfl, rfl, rfl⟩

namespace Medium

variable {β ρ : Type}

/-- Plots, as lines or as characters. -/
def plots : Medium α α (Point α) where
  sinks o := o.plots
  drawn?
    | .draw (.plot value title _ _) => some (title, value.eval)
    | _ => none
  time := Point.time
  value := Point.value
  silent h hnone := by
    cases h with
    | plot os computed => cases hnone
    | @candle _ _ _ _ _ _ bar => cases bar <;> rfl
    | fill os => exact (Outputs.fill_sinks _ _ _ _).1
    | _ => rfl
  records h hsome := by
    cases h with
    | @plot _ _ _ char _ _ os computed =>
      cases hsome
      cases char <;> exact ⟨_, _, _, _, computed, rfl, rfl⟩
    | nothing quiet =>
      rename_i o _ _
      cases o with
      | draw d => exact absurd rfl (quiet d)
      | _ => cases hsome
    | _ => cases hsome

/-- Candles, or bars. -/
def candles (bar : Bool) : Medium α (Candle α) (CandlePoint α) where
  sinks o := if bar then o.bars else o.candles
  drawn?
    | .draw (.candle opening high low close title _ bar') =>
      if bar' = bar then some (title, Candle.eval opening high low close) else none
    | _ => none
  time := CandlePoint.time
  value := CandlePoint.candle
  silent h hnone := by
    cases h with
    | @plot _ _ _ char => cases bar <;> cases char <;> rfl
    | @candle _ _ _ _ _ _ bar' =>
      cases bar <;> cases bar' <;> first | rfl | cases hnone
    | fill os =>
      rw [(Outputs.fill_sinks _ _ _ _).2.1, (Outputs.fill_sinks _ _ _ _).2.2]
    | _ => rfl
  records h hsome := by
    cases h with
    | @candle _ _ _ _ _ _ bar' _ _ os computed =>
      cases bar <;> cases bar' <;> cases hsome <;> exact ⟨_, _, _, _, computed, rfl, rfl⟩
    | nothing quiet =>
      rename_i o _ _
      cases o with
      | draw d => exact absurd rfl (quiet d)
      | _ => cases hsome
    | _ => cases hsome

/-- The title under which an instruction draws here. -/
def title? (M : Medium α β ρ) (o : Op) : Option String := (M.drawn? o).map (·.1)

/-- The point of the bar that is entered in `c`: it has the time of the bar and the value of `m`
after the instructions `before`. -/
structure Drawn (M : Medium α β ρ) (before : List Op) (m : EvalM α β) (c : Context α)
    (point : ρ) : Prop where
  time : M.time point = c.now
  value : ValueAfter before m c (M.value point)

/-- A sink with one point for each of the bars that are entered in `cs`, drawn by one of the
instructions. -/
def Aligned (M : Medium α β ρ) (ops : List Op) (cs : List (Context α)) (s : Sink α ρ) : Prop :=
  ∃ before o after m, ops = before ++ o :: after ∧ M.drawn? o = some (s.title, m) ∧
    List.Forall₂ (M.Drawn before m) cs s.data.toList

/-! ## One bar -/

section

variable (M : Medium α β ρ) {os : List Op} {o : Op} {plotted plotted' : Plotted α}
variable {c c' : Context α} {t : String} {titles : List String}

theorem exec_under_of_ne (h : o.exec plotted c = .ok plotted' c') (ht : M.title? o ≠ some t) :
    Sink.under t (M.sinks c'.outputs) = Sink.under t (M.sinks c.outputs) := by
  have hdraws := Op.exec_draws h
  cases hdrawn : M.drawn? o with
  | none => rw [M.silent hdraws hdrawn]
  | some d =>
    obtain ⟨title, m⟩ := d
    obtain ⟨point, c₁, options, pane, -, -, hsinks⟩ := M.records hdraws hdrawn
    have hne : title ≠ t := by
      rintro rfl
      exact ht (by rw [title?, hdrawn]; rfl)
    rw [hsinks, Sink.under_record, if_neg hne]

theorem exec_titles (h : o.exec plotted c = .ok plotted' c')
    (hs : (M.sinks c.outputs).map (·.title) = titles.eraseDups) :
    (M.sinks c'.outputs).map (·.title) = (titles ++ (M.title? o).toList).eraseDups := by
  have hdraws := Op.exec_draws h
  unfold title?
  cases hdrawn : M.drawn? o with
  | none => rw [M.silent hdraws hdrawn, hs, Option.map_none, Option.toList_none, List.append_nil]
  | some d =>
    obtain ⟨title, m⟩ := d
    obtain ⟨point, c₁, options, pane, -, -, hsinks⟩ := M.records hdraws hdrawn
    rw [hsinks, Sink.titles_record, hs, Option.map_some, Option.toList_some,
      eraseDups_append_singleton]
    simp only [List.mem_eraseDups]

/-- Instructions with other titles leave the points of a title alone. -/
theorem execAll_under_of_not_mem (h : Op.execAll os plotted c = .ok plotted' c')
    (ht : t ∉ os.filterMap M.title?) :
    Sink.under t (M.sinks c'.outputs) = Sink.under t (M.sinks c.outputs) := by
  induction os generalizing plotted c with
  | nil =>
    cases h
    rfl
  | cons o os ih =>
    obtain ⟨plotted₁, c₁, ho, hos⟩ := eval_bind_ok h
    have hrest : t ∉ os.filterMap M.title? := by
      intro hmem
      obtain ⟨o', ho', htitle⟩ := List.mem_filterMap.1 hmem
      exact ht (List.mem_filterMap.2 ⟨o', .tail _ ho', htitle⟩)
    have hne : M.title? o ≠ some t := fun htitle =>
      ht (List.mem_filterMap.2 ⟨o, .head _, htitle⟩)
    rw [ih hos hrest, M.exec_under_of_ne ho hne]

/-- Sinks stand in the order in which their titles first come up. -/
theorem execAll_titles (h : Op.execAll os plotted c = .ok plotted' c')
    (hs : (M.sinks c.outputs).map (·.title) = titles.eraseDups) :
    (M.sinks c'.outputs).map (·.title) = (titles ++ os.filterMap M.title?).eraseDups := by
  induction os generalizing plotted c titles with
  | nil =>
    cases h
    rw [List.filterMap_nil, List.append_nil, hs]
  | cons o os ih =>
    obtain ⟨plotted₁, c₁, ho, hos⟩ := eval_bind_ok h
    rw [ih hos (M.exec_titles ho hs), List.append_assoc, List.filterMap_cons]
    cases M.title? o <;> rfl

/-- **An instruction with a title of its own** draws one point at a bar. -/
theorem step_under {p : Program} {before after : List Op} {m : EvalM α β} {out : StepOutput α}
    (hops : p.ops = before ++ o :: after) (ho : M.drawn? o = some (t, m))
    (hbefore : t ∉ before.filterMap M.title?) (hafter : t ∉ after.filterMap M.title?)
    (h : p.step c = .ok out c') : ∃ point, M.Drawn before m c point ∧
      Sink.under t (M.sinks c'.outputs) = Sink.under t (M.sinks c.outputs) ++ [point] := by
  obtain ⟨plotted, c₃, hexec, houtput⟩ := eval_bind_ok h
  rw [hops, Op.execAll_append] at hexec
  obtain ⟨plotted₁, c₁, hfirst, hexec⟩ := eval_bind_ok hexec
  obtain ⟨plotted₂, c₂, hdraw, hlast⟩ := eval_bind_ok hexec
  obtain ⟨point, c₄, options, pane, hvalue, htime, hsinks⟩ :=
    M.records (Op.exec_draws hdraw) ho
  refine ⟨point, ⟨htime.trans (Op.execAll_touched hfirst).now, _, _, _, hfirst, hvalue⟩, ?_⟩
  rw [Program.output_outputs houtput, M.execAll_under_of_not_mem hlast hafter, hsinks,
    Sink.under_record, if_pos rfl, M.execAll_under_of_not_mem hfirst hbefore]

theorem step_titles {p : Program} {out : StepOutput α} (h : p.step c = .ok out c')
    (hs : (M.sinks c.outputs).map (·.title) = titles.eraseDups) :
    (M.sinks c'.outputs).map (·.title) = (titles ++ p.ops.filterMap M.title?).eraseDups := by
  obtain ⟨plotted, c₁, hexec, houtput⟩ := eval_bind_ok h
  rw [Program.output_outputs houtput, M.execAll_titles hexec hs]

end

/-! ## Runs -/

section

variable (M : Medium α β ρ) {p : Program} {bars : List Nat} {ctx ctx' : Context α} {t : String}

/-- **The bars of a run** draw one point each under a title that one instruction has. -/
theorem visits_under {before after : List Op} {o : Op} {m : EvalM α β}
    (hops : p.ops = before ++ o :: after) (ho : M.drawn? o = some (t, m))
    (hbefore : t ∉ before.filterMap M.title?) (hafter : t ∉ after.filterMap M.title?)
    (h : Runner.visits p bars ctx = (.ok (), ctx')) :
    ∃ points, List.Forall₂ (M.Drawn before m) (Runner.entered p bars ctx) points ∧
      Sink.under t (M.sinks ctx'.outputs) = Sink.under t (M.sinks ctx.outputs) ++ points := by
  induction bars generalizing ctx with
  | nil =>
    cases h
    exact ⟨[], .nil, (List.append_nil _).symm⟩
  | cons bar bars ih =>
    obtain ⟨out, c, results, hstep, -, hrest, hentered⟩ := Runner.visits_cons h
    obtain ⟨point, hpoint, hsinks⟩ := M.step_under hops ho hbefore hafter hstep
    obtain ⟨points, hpoints, hall⟩ := ih hrest
    refine ⟨point :: points, hentered ▸ .cons hpoint hpoints, ?_⟩
    rw [hall]
    show Sink.under t (M.sinks c.outputs) ++ points = _
    rw [hsinks, List.append_assoc]
    rfl

theorem visits_titles {titles : List String} (h : Runner.visits p bars ctx = (.ok (), ctx'))
    (hs : (M.sinks ctx.outputs).map (·.title) = titles.eraseDups) :
    (M.sinks ctx'.outputs).map (·.title) =
      (titles ++ bars.flatMap fun _ => p.ops.filterMap M.title?).eraseDups := by
  induction bars generalizing ctx titles with
  | nil =>
    cases h
    rw [List.flatMap_nil, List.append_nil, hs]
  | cons bar bars ih =>
    obtain ⟨out, c, results, hstep, -, hrest, -⟩ := Runner.visits_cons h
    have hone := M.step_titles hstep hs
    rw [ih hrest hone, List.append_assoc, List.flatMap_cons]

/-- A title that comes up once is that of one instruction. -/
theorem exists_once {os : List Op} (h : (os.filterMap M.title?).count t = 1) :
    ∃ before o after m, os = before ++ o :: after ∧ M.drawn? o = some (t, m) ∧
      t ∉ before.filterMap M.title? ∧ t ∉ after.filterMap M.title? := by
  have hmem : t ∈ os.filterMap M.title? := List.count_pos_iff.1 (by omega)
  obtain ⟨o, ho, htitle⟩ := List.mem_filterMap.1 hmem
  obtain ⟨before, after, rfl⟩ := List.append_of_mem ho
  obtain ⟨d, hd, rfl⟩ := Option.map_eq_some_iff.1 htitle
  rw [List.filterMap_append, List.filterMap_cons, htitle, List.count_append,
    List.count_cons_self] at h
  exact ⟨before, o, after, d.2, rfl, hd, List.count_eq_zero.1 (by omega),
    List.count_eq_zero.1 (by omega)⟩

/-- **The sinks of a run** that starts without any: one for each title, and one that a single
instruction draws to has one point for each bar. -/
theorem visits_aligned (h : Runner.visits p bars ctx = (.ok (), ctx'))
    (hnone : M.sinks ctx.outputs = []) :
    (M.sinks ctx'.outputs).map (·.title) =
        (bars.flatMap fun _ => p.ops.filterMap M.title?).eraseDups ∧
      ∀ s ∈ M.sinks ctx'.outputs, (p.ops.filterMap M.title?).count s.title = 1 →
        M.Aligned p.ops (Runner.entered p bars ctx) s := by
  have hstart : (M.sinks ctx.outputs).map (·.title) = ([] : List String).eraseDups := by
    rw [hnone]
    rfl
  have htitles := M.visits_titles h hstart
  rw [List.nil_append] at htitles
  refine ⟨htitles, fun s hs honce => ?_⟩
  obtain ⟨before, o, after, m, hops, ho, hbefore, hafter⟩ := M.exists_once honce
  obtain ⟨points, hpoints, hunder⟩ := M.visits_under hops ho hbefore hafter h
  rw [hnone, Sink.under_of_mem (htitles ▸ nodup_eraseDups _) hs] at hunder
  exact ⟨before, o, after, m, hops, ho, hunder ▸ hpoints⟩

end

theorem plots_title : (plots : Medium α α (Point α)).title? = Op.plotTitle? := by
  funext o
  cases o with
  | draw d => cases d <;> rfl
  | _ => rfl

end Medium

/-! ## Columns -/

/-- What is plotted is drawn, under its title and with its value. -/
theorem Op.exec_plotted {o : Op} {plotted plotted' : Plotted α} {c c' : Context α}
    (h : o.exec plotted c = .ok plotted' c') :
    (plotted' = plotted ∧ c'.outputs.plots = c.outputs.plots) ∨
      ∃ (title : String) (options : Options α) (pane : Nat) (point : Point α),
        plotted' = plotted ++ [(title, .number point.value)] ∧
        c'.outputs.plots = Sink.record title options pane point c.outputs.plots := by
  have hdraws := Op.exec_draws h
  generalize c'.outputs = outputs at hdraws ⊢
  cases hdraws with
  | @plot value title options char v c₁ os computed =>
    cases char <;> exact .inr ⟨title, _, _, _, rfl, rfl⟩
  | @candle _ _ _ _ _ _ bar => cases bar <;> exact .inl ⟨rfl, rfl⟩
  | fill os => exact .inl ⟨rfl, (Outputs.fill_sinks _ _ _ _).1⟩
  | _ => exact .inl ⟨rfl, rfl⟩

/-- The values that are drawn under a title are those that are plotted under it. -/
theorem Op.execAll_plotted {os : List Op} {plotted plotted' : Plotted α} {c c' : Context α}
    (h : Op.execAll os plotted c = .ok plotted' c') {t : String} {before : List α}
    (hc : (Sink.under t c.outputs.plots).map (·.value) =
      before ++ (plotted.filter (·.1 == t)).map (·.2.newest)) :
    (Sink.under t c'.outputs.plots).map (·.value) =
      before ++ (plotted'.filter (·.1 == t)).map (·.2.newest) := by
  induction os generalizing plotted c with
  | nil =>
    cases h
    exact hc
  | cons o os ih =>
    obtain ⟨plotted₁, c₁, ho, hos⟩ := eval_bind_ok h
    refine ih hos ?_
    rcases Op.exec_plotted ho with ⟨rfl, hplots⟩ | ⟨title, options, pane, point, rfl, hplots⟩
    · rw [hplots, hc]
    · rw [hplots, Sink.under_record, List.filter_append]
      by_cases ht : title = t
      · simp [ht, hc, Value.newest]
      · simp [ht, hc]

/-- Of values with different names one has a given name. -/
theorem StepOutput.filter_eq_entry {fields : List (String × Value α)}
    (hkeys : (fields.map (·.1)).Nodup) {t : String} (ht : t ∈ fields.map (·.1)) :
    (fields.filter (·.1 == t)).map (·.2.newest) = [(StepOutput.named fields).entry t] := by
  obtain ⟨f, hf, rfl⟩ := List.mem_map.1 ht
  have hentry := StepOutput.last?_of_mem hkeys hf
  obtain ⟨before, after, rfl⟩ := List.append_of_mem hf
  rw [List.map_append, List.map_cons, List.nodup_middle, ← List.map_append] at hkeys
  have hnone : ∀ g ∈ before ++ after, ¬ (g.1 == f.1) = true := fun g hg hkey =>
    (List.nodup_cons.1 hkeys).1 (List.mem_map.2 ⟨g, hg, by simpa using hkey⟩)
  have hbefore := List.filter_eq_nil_iff.2 fun g hg => hnone g (List.mem_append_left _ hg)
  have hafter := List.filter_eq_nil_iff.2 fun g hg => hnone g (List.mem_append_right _ hg)
  rw [List.filter_append, hbefore, List.filter_cons_of_pos (by simp), hafter, StepOutput.entry,
    hentry]
  rfl

namespace Program

variable {p : Program} {c c' ctx ctx' : Context α}

/-- **One bar** of a program without a result: what it gives under a title has been drawn under
it. -/
theorem step_plotted {out : StepOutput α} (hresult : p.result = none)
    (hdistinct : (p.ops.filterMap Op.plotTitle?).Nodup) (h : p.step c = .ok out c') {t : String}
    (ht : t ∈ p.ops.filterMap Op.plotTitle?) :
    out.keys = p.ops.filterMap Op.plotTitle? ∧ out.isNamed = true ∧
      (Sink.under t c'.outputs.plots).map (·.value) =
        (Sink.under t c.outputs.plots).map (·.value) ++ [out.entry t] := by
  obtain ⟨plotted, c₁, hexec, houtput⟩ := eval_bind_ok h
  have htitles := Op.execAll_titles p.ops [] _ _ _ hexec
  rw [List.map_nil, List.nil_append] at htitles
  have hvalues := Op.execAll_plotted hexec (t := t) (List.append_nil _).symm
  have hsome : plotted.isEmpty = false := by
    cases plotted with
    | nil =>
      rw [← htitles] at ht
      cases ht
    | cons f fs => rfl
  have hout := houtput
  rw [Program.output, hresult] at hout
  obtain rfl : StepOutput.named plotted = out := by
    rw [hsome] at hout
    injection hout
  refine ⟨htitles, rfl, ?_⟩
  rw [output_outputs houtput, hvalues, StepOutput.filter_eq_entry (htitles ▸ hdistinct)
    (htitles ▸ ht)]

/-- **The bars of a run** of such a program. -/
theorem visits_plotted {bars : List Nat} (hresult : p.result = none)
    (hdistinct : (p.ops.filterMap Op.plotTitle?).Nodup) (hsome : p.ops.filterMap Op.plotTitle? ≠ [])
    (h : Runner.visits p bars ctx = (.ok (), ctx')) :
    ∃ outs : List (StepOutput α), outs.length = bars.length ∧
      (∀ out ∈ outs, out.keys = p.ops.filterMap Op.plotTitle? ∧ out.isNamed = true) ∧
      (∀ outputs, ctx.results.Holds outputs → ctx'.results.Holds (outputs ++ outs)) ∧
      ∀ t ∈ p.ops.filterMap Op.plotTitle?, (Sink.under t ctx'.outputs.plots).map (·.value) =
        (Sink.under t ctx.outputs.plots).map (·.value) ++ outs.map (·.entry t) := by
  induction bars generalizing ctx with
  | nil =>
    cases h
    exact ⟨[], rfl, List.forall_mem_nil _, fun outputs h => by rwa [List.append_nil],
      fun t _ => (List.append_nil _).symm⟩
  | cons bar bars ih =>
    obtain ⟨out, c, results, hstep, hpush, hrest, -⟩ := Runner.visits_cons h
    obtain ⟨outs, hlength, hnames, hholds, hvalues⟩ := ih hrest
    have hone {t : String} (ht : t ∈ p.ops.filterMap Op.plotTitle?) :=
      step_plotted hresult hdistinct hstep ht
    obtain ⟨t₀, ht₀⟩ := List.exists_mem_of_ne_nil _ hsome
    have htouched := p.step_touched (Engine.enter ctx bar)
    rw [hstep] at htouched
    have hresults : c.results = ctx.results := htouched.results
    refine ⟨out :: outs, congrArg (· + 1) hlength,
      List.forall_mem_cons.2 ⟨⟨(hone ht₀).1, (hone ht₀).2.1⟩, hnames⟩, fun outputs h => ?_,
      fun t ht => ?_⟩
    · rw [hresults] at hpush
      rw [List.append_cons]
      exact hholds _ (h.push hpush)
    · rw [hvalues t ht]
      show (Sink.under t c.outputs.plots).map (·.value) ++ _ = _
      rw [(hone ht).2.2, List.append_assoc]
      rfl

/-- **The sinks of the plots** of a run that starts without sinks, with titles that are distinct. -/
theorem plots_of_visits {bars : List Nat} (hdistinct : (p.ops.filterMap Op.plotTitle?).Nodup)
    (h : Runner.visits p bars ctx = (.ok (), ctx')) (hnone : ctx.outputs.plots = []) :
    ctx'.outputs.plots.map (·.title) =
        (if bars = [] then [] else p.ops.filterMap Op.plotTitle?) ∧
      ∀ s ∈ ctx'.outputs.plots, Medium.plots.Aligned p.ops (Runner.entered p bars ctx) s := by
  obtain ⟨htitles, haligned⟩ := Medium.plots.visits_aligned h hnone
  rw [Medium.plots_title] at htitles haligned
  have hsinks : ctx'.outputs.plots.map (·.title) =
      if bars = [] then [] else p.ops.filterMap Op.plotTitle? := by
    refine htitles.trans ?_
    by_cases hbars : bars = []
    · rw [if_pos hbars, hbars]
      rfl
    · rw [if_neg hbars, Results.eraseDups_flatMap_const hbars fun _ _ => rfl,
        eraseDups_of_nodup hdistinct]
  refine ⟨hsinks, fun s hs => haligned s hs (List.count_eq_one_of_mem hdistinct ?_)⟩
  have hmem : s.title ∈ ctx'.outputs.plots.map (·.title) := List.mem_map_of_mem hs
  rw [hsinks] at hmem
  split at hmem
  · cases hmem
  · exact hmem

/-- **The columns of plots.** A run that starts with neither sinks nor results and has plotted
something makes one column for each sink, with the values of its points. -/
theorem columns_of_plots {bars : List Nat} (hresult : p.result = none)
    (hdistinct : (p.ops.filterMap Op.plotTitle?).Nodup)
    (h : Runner.visits p bars ctx = (.ok (), ctx')) (hnone : ctx.outputs.plots = [])
    (hresults : ctx.results = .empty) (hplotted : ctx'.outputs.plots ≠ []) :
    ctx'.results.columns =
      .named (ctx'.outputs.plots.map fun s => (s.title, s.data.map (·.value))) := by
  have htitles := (plots_of_visits hdistinct h hnone).1
  have hbars : bars ≠ [] := by
    intro hbars
    rw [if_pos hbars] at htitles
    exact hplotted (List.map_eq_nil_iff.1 htitles)
  rw [if_neg hbars] at htitles
  have hsome : p.ops.filterMap Op.plotTitle? ≠ [] := by
    intro hsome
    rw [hsome] at htitles
    exact hplotted (List.map_eq_nil_iff.1 htitles)
  obtain ⟨outs, hlength, hnames, hholds, hvalues⟩ := visits_plotted hresult hdistinct hsome h
  have hempty : ctx.results.Holds [] := hresults ▸ Results.empty_holds
  have houts : outs ≠ [] := by
    rintro rfl
    exact hbars (List.length_eq_zero_iff.1 hlength.symm)
  have hcolumns : ctx'.results.columns = .named (Results.table (p.ops.filterMap Op.plotTitle?)
      fun t => outs.map (·.entry t)) := by
    have hkeys : (outs.flatMap (·.keys)).eraseDups = p.ops.filterMap Op.plotTitle? :=
      (Results.eraseDups_flatMap_const houts fun o ho => (hnames o ho).1).trans
        (eraseDups_of_nodup hdistinct)
    rw [(hholds [] hempty).eq_tabulate, List.nil_append, ← hkeys]
    cases outs with
    | nil => exact absurd rfl houts
    | cons out outs =>
      cases out with
      | scalar v => exact absurd (hnames _ (.head _)).2 Bool.false_ne_true
      | named fields => rfl
  rw [hcolumns, Results.table, ← htitles, List.map_map]
  refine congrArg Columns.named (List.map_congr_left fun s hs => ?_)
  have hs' : s.title ∈ p.ops.filterMap Op.plotTitle? := htitles ▸ List.mem_map_of_mem hs
  have hpoints := hvalues s.title hs'
  rw [Sink.under_of_mem (htitles ▸ hdistinct) hs, hnone] at hpoints
  have hentries : outs.map (·.entry s.title) = s.data.toList.map (·.value) := hpoints.symm
  show (s.title, (outs.map (·.entry s.title)).toArray) = _
  rw [hentries, ← Array.toList_map]

end Program

/-! ## Whole runs -/

/-- The bars that are entered have the opening times of the market. -/
theorem Runner.now_of_entered {p : Program} {market : Market α} {count : Option Nat}
    {ctx : Context α}
    (h : (entered p (window market count) ctx).map Context.snapshot =
      (window market count).map (Snapshot.mk market)) :
    ∀ c ∈ entered p (window market count) ctx,
      market.bars[c.bar]?.map (·.openTime) = some c.now := by
  intro c hc
  have hmem : c.snapshot ∈ (window market count).map (Snapshot.mk market) :=
    h ▸ List.mem_map_of_mem hc
  obtain ⟨bar, hbar, hsnapshot⟩ := List.mem_map.1 hmem
  have hlt : bar < market.bars.size := lt_size_of_mem_window hbar
  have hnow : c.now = market.bars[bar].openTime := by
    rw [Context.now, ← hsnapshot]
    exact Snapshot.now_eq hlt
  have hat : c.bar = bar := (congrArg Snapshot.bar hsnapshot).symm
  rw [hat, Array.getElem?_eq_getElem hlt, hnow]
  rfl

/-- **Sinks and rows stay aligned.** The titles of the plots of a compiled script are distinct, and
a run on a fresh context has succeeded. Every plot has a sink, in the order of the statements, with
one point for each bar of the window: it carries the opening time of the bar, and the value that the
plotted expression has there, after the instructions before. So does every sink of candles or bars
whose title is that of one instruction. If the script does not return and something has been
plotted, then the columns of the results are the titles of the sinks with the values of their
points. -/
theorem sinks_aligned {source : String} {ss : List Statement} {p : Program}
    (hparse : parse source = .ok ss) (hcompile : compile source = .ok p)
    (hdistinct : (ss.filterMap Statement.plotTitle?).Nodup) (bars : List (Bar α))
    (useCache : Bool) (precision : Precision) (count : Option Nat) :
    let r := Runner.configured bars useCache precision
    let run := r.runIn r.context (some source) count
    run.1 = .ok () →
      let ctx := run.2.1
      let window := Runner.window r.market count
      let cs := Runner.entered p window r.context
      cs.map Context.snapshot = window.map (Snapshot.mk r.market) ∧
      (∀ c ∈ cs, r.market.bars[c.bar]?.map (·.openTime) = some c.now) ∧
      ctx.outputs.plots.map (·.title) =
        (if window = [] then [] else ss.filterMap Statement.plotTitle?) ∧
      (∀ s ∈ ctx.outputs.plots, Medium.plots.Aligned p.ops cs s) ∧
      (∀ bar, let M := Medium.candles bar
        ∀ s ∈ M.sinks ctx.outputs, (p.ops.filterMap M.title?).count s.title = 1 →
          M.Aligned p.ops cs s) ∧
      (ss.findSome? Statement.returned? = none → ctx.outputs.plots ≠ [] →
        ctx.results.columns =
          .named (ctx.outputs.plots.map fun s => (s.title, s.data.map (·.value)))) := by
  intro r run hok ctx window cs
  obtain ⟨s', hresolved, -⟩ :=
    compileStatements_ok_iff.1 (compileStatements_of_compile hparse hcompile)
  rw [← hresolved.plotTitles] at hdistinct ⊢
  have hvisits : Runner.visits p window r.context = (.ok (), ctx) := by
    have hvisits : Runner.visits p window r.context = (run.1, ctx) :=
      Runner.visits_of_configured hcompile bars useCache precision count
    rwa [hok] at hvisits
  have hsnapshots := Runner.entered_snapshots hvisits
  obtain ⟨htitles, haligned⟩ := Program.plots_of_visits hdistinct hvisits rfl
  refine ⟨hsnapshots, Runner.now_of_entered hsnapshots, htitles, haligned, fun bar => ?_,
    fun hreturned hplotted => ?_⟩
  · refine ((Medium.candles bar).visits_aligned hvisits ?_).2
    cases bar <;> rfl
  · exact Program.columns_of_plots (hresolved.result_eq_none hreturned) hdistinct hvisits rfl rfl
      hplotted

/-- A plot and candles. -/
def drawnSource : String := "plot(close, \"a\")\nplotcandle(open, high, low, close, \"c\")"

def drawnStatements : List Statement :=
  [.expr (.call ⟨"plot", [⟨none, .name "close" 5, 5⟩, ⟨none, .text "a", 12⟩], 0⟩),
    .expr (.call ⟨"plotcandle", [⟨none, .name "open" 28, 28⟩, ⟨none, .name "high" 34, 34⟩,
      ⟨none, .name "low" 40, 40⟩, ⟨none, .name "close" 45, 45⟩, ⟨none, .text "c", 52⟩], 17⟩)]

def drawnProgram : Program :=
  let price (p : Price) : Node := .read (.price p) none
  ⟨[.draw (.plot (price .close) "a" [] false),
      .draw (.candle (price .opening) (price .high) (price .low) (price .close) "c" [] false)],
    none, ⟨2, 0, 0, 0⟩⟩

/-- Over the last two of three bars. -/
theorem sinks_aligned_drawn :
    let bars : List (Bar Float) :=
      [⟨0, 1, 2, 3, 1, 2, 5⟩, ⟨1, 2, 2, 4, 2, 4, 5⟩, ⟨2, 3, 4, 4, 3, 3, 5⟩]
    let r := Runner.configured bars true .standard
    let run := r.runIn r.context (some drawnSource) (some 2)
    let ctx := run.2.1
    let cs := Runner.entered drawnProgram (Runner.window r.market (some 2)) r.context
    parse drawnSource = .ok drawnStatements ∧ compile drawnSource = .ok drawnProgram ∧
      (drawnStatements.filterMap Statement.plotTitle?).Nodup ∧ run.1 = .ok () ∧
      ctx.outputs.plots.map (fun s => (s.title, s.data.map fun x => (x.time, x.value))) =
        [("a", #[(1, 4), (2, 3)])] ∧
      (∀ s ∈ ctx.outputs.plots, Medium.plots.Aligned drawnProgram.ops cs s) ∧
      (∀ s ∈ ctx.outputs.candles, (Medium.candles false).Aligned drawnProgram.ops cs s) ∧
      ctx.results.columns =
        .named (ctx.outputs.plots.map fun s => (s.title, s.data.map (·.value))) := by
  intro bars r run ctx cs
  have hparse : parse drawnSource = .ok drawnStatements := by
    with_unfolding_all rfl
  have hcompile : compile drawnSource = .ok drawnProgram := by
    rw [compile, hparse]
    with_unfolding_all rfl
  have hdistinct : (drawnStatements.filterMap Statement.plotTitle?).Nodup := by
    decide +kernel
  have hmarket : Market.ofBars bars = ⟨bars.toArray⟩ := Market.ofBars_ascending (by decide)
  have hr : r = ⟨⟨bars.toArray⟩, none, true, .standard⟩ := by rw [← hmarket]; rfl
  have hended : run.1 = .ok () ∧ ctx.outputs.candles.map (·.title) = ["c"] ∧
      ctx.outputs.plots.map (fun s => (s.title, s.data.map fun x => (x.time, x.value))) =
        [("a", #[(1, 4), (2, 3)])] := by
    simp only [ctx, run]
    rw [Runner.runIn_some hcompile (.inl rfl), hr]
    decide +kernel
  obtain ⟨hok, hcandles, hplots⟩ := hended
  obtain ⟨-, -, -, haligned, hbars, hcolumns⟩ :=
    sinks_aligned hparse hcompile hdistinct bars true .standard (some 2) hok
  refine ⟨hparse, hcompile, hdistinct, hok, hplots, haligned, fun s hs => hbars false s hs ?_,
    hcolumns (by with_unfolding_all rfl) ?_⟩
  · have htitle : s.title ∈ ctx.outputs.candles.map (·.title) := List.mem_map_of_mem hs
    rw [hcandles, List.mem_singleton] at htitle
    rw [htitle]
    decide +kernel
  · intro hnone
    change ctx.outputs.plots = [] at hnone
    rw [hnone] at hplots
    cases hplots

end BarScript
