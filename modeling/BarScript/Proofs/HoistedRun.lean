import BarScript.Proofs.Hoisting

/-!
# Runs with a computed series that is written beforehand

`Program.Hoisted H past p p'` is an equivalence of runs: a run of `p'` fails if a run of `p` does,
and otherwise gives the same results, outputs and lookback (`Program.Hoisted.visits`). If the series
stands in the target of a history access, this is so as long as no access passes the series by.
-/

namespace BarScript

variable {α : Type} [Arith α]

namespace Hoisting

variable {ρ : Renaming} {H : Hoisting ρ} {past : Bool}

/-! ## Options and drawings -/

theorem apart_option {o o' : OptionNode} (h : o.Renamed ρ H.others o') :
    H.Apart o.eval (o'.eval : EvalM α _) := fun c₀ b =>
  (Abreast.correspondence ρ H.others c₀ b).option h []

theorem same_options {os os' : OptionNodes} (h : Keyed (OptionNode.Renamed ρ .all) os os')
    (given : Options α) : Same ρ (evalOptions os given) (evalOptions os' given) :=
  (Context.Matched.execution ρ .all).options h given []

theorem same_draw (f : Outputs α → Int → Outputs α) (plotted : Plotted α) :
    Same ρ (do drawAt f; return plotted) (do drawAt f; return plotted) :=
  Same.bind ((Context.Matched.execution ρ .all).drawAt f []) fun _ => same_pure _

namespace Reaches

theorem call {k k' : StudyCall} (h : k.Hoisted H past k') :
    H.Reaches past k.eval k'.eval (k.trace : Context α → _) :=
  (bounds k.args h.args).within
    (fun nums => same_perform _ _ h.study h.handle (fun _ _ hc => sees hc h.args) nums fun vs => vs) _

theorem option {o o' : OptionNode} (h : o.Hoisted H past o') :
    H.Reaches past o.eval o'.eval (o.trace : Context α → _) := by
  induction h with
  | number h =>
    rw [OptionNode.eval, OptionNode.eval]
    exact (node _ h).map _
  | rgb h =>
    rw [OptionNode.eval, OptionNode.eval]
    exact (nodes _ h).map _
  | base h halpha ih =>
    rw [OptionNode.eval, OptionNode.eval]
    refine ih.within (fun b => ?_) _
    cases halpha with
    | none => exact same_pure _
    | some h => exact (same_node h).bind fun a => same_pure _
  | alpha hbase h =>
    rw [OptionNode.eval, OptionNode.eval]
    exact after (apart_option hbase)
      (fun b => (node _ h).first (fun a => same_pure _) fun _ => List.Subset.refl _) _

theorem options {os os' : OptionNodes} (h : OptionNodes.Hoisted H past os os')
    (given : Options α) :
    H.Reaches past (evalOptions os given) (evalOptions os' given) (optionTrace os) := by
  induction h generalizing given with
  | @head o o' os os' h hos =>
    obtain ⟨key, o⟩ := o
    obtain ⟨_, o'⟩ := o'
    obtain ⟨rfl, h⟩ := h
    exact (option h).within (fun v => same_options hos _) _
  | @tail o o' os os' ho _ ih =>
    obtain ⟨key, o⟩ := o
    obtain ⟨_, o'⟩ := o'
    obtain ⟨rfl, ho⟩ := ho
    exact after (apart_option ho) (fun v => ih _) _

/-- The series is in one of the options of a drawing. -/
theorem drawn {os os' : OptionNodes} (h : OptionNodes.Hoisted H past os os')
    (f : Options α → Outputs α → Int → Outputs α) (plotted : Plotted α) :
    H.Reaches past (do let o ← evalOptions os ∅; drawAt (f o); return plotted)
      (do let o ← evalOptions os' ∅; drawAt (f o); return plotted) (optionTrace os) :=
  (options h ∅).first (fun o => same_draw (f o) plotted) fun _ => List.Subset.refl _

theorem drawing {d d' : Drawing} (h : d.Hoisted H past d') (plotted : Plotted α) :
    H.Reaches past (d.perform plotted) (d'.perform plotted) d.trace := by
  have same {os os'} (hos : Keyed (OptionNode.Renamed ρ .all) os os')
      (f : Options α → Outputs α → Int → Outputs α) (plotted : Plotted α) :
      Same ρ (do let o ← evalOptions os ∅; drawAt (f o); return plotted)
        (do let o ← evalOptions os' ∅; drawAt (f o); return plotted) :=
    (same_options hos ∅).bind fun o => same_draw (f o) plotted
  cases h with
  | plot title char h hos => exact (node _ h).within (fun v => same hos _ _) _
  | plotOption title char hn h => exact after (apart_node hn) (fun v => drawn h _ _) _
  | candle title bar h hos =>
    -- the four prices are evaluated in their order
    rcases h with ⟨ha, _ | ⟨hb, _ | ⟨hc, _ | ⟨hd, -⟩⟩⟩⟩ |
      ⟨ha, ⟨hb, _ | ⟨hc, _ | ⟨hd, -⟩⟩⟩ | ⟨hb, ⟨hc, _ | ⟨hd, -⟩⟩ | ⟨hc, ⟨hd, -⟩ | ⟨-, hnone⟩⟩⟩⟩
    · exact (node _ ha).within (fun a => (same_node hb).bind fun b => (same_node hc).bind fun c =>
        (same_node hd).bind fun d => same hos _ _) _
    · exact after (apart_node ha) (fun a => (node _ hb).within (fun b => (same_node hc).bind fun c =>
        (same_node hd).bind fun d => same hos _ _) _) _
    · exact after (apart_node ha) (fun a => after (apart_node hb) (fun b => (node _ hc).within
        (fun c => (same_node hd).bind fun d => same hos _ _) _) _) _
    · exact after (apart_node ha) (fun a => after (apart_node hb) (fun b => after (apart_node hc)
        (fun c => (node _ hd).within (fun d => same hos _ _) _) _) _) _
    · nomatch hnone
  | candleOption title bar ha hb hc hd h =>
    exact after (apart_node ha) (fun a => after (apart_node hb) (fun b => after (apart_node hc)
      (fun c => after (apart_node hd) (fun d => drawn h _ _) _) _) _) _
  | fill t u h => exact drawn h _ _
  | hline title h hos => exact (node _ h).within (fun v => same hos _ _) _
  | hlineOption title hn h => exact after (apart_node hn) (fun v => drawn h _ _) _

/-! ## Instructions -/

theorem exec {o o' : Op} (h : o.Hoisted H past o') (plotted : Plotted α) :
    H.Reaches past (o.exec plotted) (o'.exec plotted) o.trace := by
  have hexecution := Context.Matched.execution (α := α) ρ .all
  cases h with
  | set hslot h =>
    exact (node _ h).within (fun v => Same.map (hexecution.setSlot hslot trivial v []) _) _
  | unpack hk hts =>
    exact (call hk).within (fun vs => Same.map (hexecution.setBindings hts vs []) _) _
  | eval h => exact (node _ h).first (fun _ => same_pure _) fun _ => List.Subset.refl _
  | draw h => exact drawing h plotted

theorem fields {fs fs' : List (String × Node)}
    (h : KeyedAt (Node.Renamed ρ H.others) (Node.Hoisted H past) (Node.Renamed ρ .all) fs fs') :
    H.Reaches past (evalFields fs) (evalFields fs') (fieldsTrace fs : Context α → _) := by
  have hexecution := Context.Matched.execution (α := α) ρ .all
  induction h with
  | @head f f' fs fs' h hfs =>
    obtain ⟨key, n⟩ := f
    obtain ⟨_, n'⟩ := f'
    obtain ⟨rfl, h⟩ := h
    exact (node _ h).within (fun v => Same.map (hexecution.fields hfs []) _) _
  | @tail f f' fs fs' hn _ ih =>
    obtain ⟨key, n⟩ := f
    obtain ⟨_, n'⟩ := f'
    obtain ⟨rfl, hn⟩ := hn
    exact after (apart_node hn) (fun v => ih.map _) _

theorem output {r r' : Result} (h : r.Hoisted H past r') (os os' : List Op) (s s' : Summary)
    (plotted : Plotted α) :
    H.Reaches past ((⟨os, some r, s⟩ : Program).output plotted)
      ((⟨os', some r', s'⟩ : Program).output plotted) r.trace := by
  cases h with
  | single h => exact (node _ h).map _
  | named h => exact (fields h).map _

/-! ## Programs -/

/-- **The series** as it is reached, and the variable that has got its value before: the same values
in matched contexts, or a failure on both sides. -/
theorem concur {β : Type} {m : EvalM α β} {m' : Plotted α → EvalM α β}
    {tr : Context α → List (Event α)} {plotted : Plotted α} (hm : H.Reaches past m (m' plotted) tr)
    {c c' : Context α} (hmatched : c.Matched ρ c') (hreached : ¬H.Skipped past (tr c)) :
    Concur (Context.Matched ρ) (m c) ((H.op.exec plotted >>= m') c') := by
  have hown := prepare_alike (start_own hmatched (hmatched.abreast H.others))
  have hexec : (H.op.exec plotted >>= m') c' = (H.assign >>= fun _ => m' plotted) c' := by
    show EStateM.bind (EStateM.bind _ _) _ _ = EStateM.bind (EStateM.bind _ _) _ _
    unfold EStateM.bind
    cases H.value'.eval c' <;> rfl
  have hout := hm c c' c (H.assigned c') hmatched
  rw [hexec]
  unfold assigned at hout
  unfold Outcome at hout
  cases hassign : H.assign c' with
  | error failure q =>
    simp only [hassign] at hout
    obtain ⟨failure', e, hfail⟩ := (hout (hmatched.abreast _)).resolve_left hreached
    rw [hfail]
    show Concur _ _ (EStateM.bind _ _ _)
    rw [EStateM.bind, hassign]
    trivial
  | ok _ q =>
    simp only [hassign] at hout
    rw [hassign] at hown
    have hstart : Abreast ρ H.others c q c q := by
      cases hprepare : (H.source.prepare : EvalM α Unit) c with
      | error failure e => rw [hprepare] at hown; exact hown.elim
      | ok _ e =>
        rw [hprepare] at hown
        obtain ⟨-, hown⟩ := hown
        refine .start (hmatched.level.trans hown.right) (fun a ha => ?_) fun i hi => ?_
        · rw [(hown.slot_kept a fun hw => ha hw.1 hw.2).2]
          exact hmatched.slot a
        · rw [(hown.entry_kept i hi).2]
          exact hmatched.entry i
    have halike := ((hout hstart).resolve_left hreached).concur
    show Concur _ _ (EStateM.bind _ _ _)
    rw [EStateM.bind, hassign]
    exact halike

end Reaches

end Hoisting

/-- What an instruction does is in the trace of the instructions around it. -/
theorem Op.trace_subset {os : List Op} (o : Op) (ps : List Op) {plotted plotted' : Plotted α}
    {c d : Context α} (h : Op.execAll os plotted c = .ok plotted' d) :
    o.trace d ⊆ Op.traceAll (os ++ o :: ps) plotted c := by
  induction os generalizing plotted c with
  | nil =>
    cases h
    exact List.subset_append_left _ _
  | cons o' os ih =>
    obtain ⟨after, c₁, hexec, h⟩ := eval_bind_ok h
    rw [List.cons_append, Op.traceAll, onSuccess_ok hexec]
    exact List.subset_append_of_subset_right _ (ih h)

namespace Program.Hoisted

variable {ρ : Renaming} {H : Hoisting ρ} {past : Bool} {p p' : Program}

/-- **A step** gives the same in matched contexts, or a failure on both sides. -/
theorem step (h : Program.Hoisted H past p p') {c c' : Context α} (hmatched : c.Matched ρ c')
    (hreached : ¬H.Skipped past (p.trace c)) :
    Concur (Context.Matched ρ) (p.step c) (p'.step c') := by
  have hexecution := Context.Matched.execution (α := α) ρ .all
  cases h with
  | @op os os' ps ps' o o' r r' s s' hos h hps hr =>
    let q : Program := ⟨os ++ o :: ps, r, s⟩
    let q' : Program := ⟨os' ++ H.op :: o' :: ps', r', s'⟩
    have hstep : q.step = (do
        let plotted ← Op.execAll os []
        let plotted ← o.exec plotted
        Op.execAll ps plotted >>= q.output : EvalM α _) := by
      rw [Program.step, Op.execAll_append, bind_assoc]
      exact congrArg _ (funext fun plotted => bind_assoc _ _ _)
    have hstep' : q'.step = (do
        let plotted ← Op.execAll os' []
        let plotted ← H.op.exec plotted >>= o'.exec
        Op.execAll ps' plotted >>= q'.output : EvalM α _) := by
      rw [Program.step, Op.execAll_append, bind_assoc]
      exact congrArg _ (funext fun plotted => by simp only [Op.execAll, bind_assoc])
    rw [hstep, hstep']
    refine Concur.bind (hexecution.ops hos [] [] c c' hmatched).concur
      fun plotted d d' hd hmatched => ?_
    have hseries := (Hoisting.Reaches.exec h plotted).concur hmatched fun hs =>
      hreached (hs.mono (List.subset_append_of_subset_left _ (Op.trace_subset o ps hd)))
    refine hseries.bind fun plotted e e' _ hmatched => ?_
    exact ((hexecution.ops hps plotted [] e e' hmatched).bind fun plotted e e' hmatched =>
      hexecution.output hr plotted e e' hmatched).concur
  | @result os os' r r' s s' hos h =>
    let q : Program := ⟨os, some r, s⟩
    let q' : Program := ⟨os' ++ [H.op], some r', s'⟩
    have hstep' : q'.step = (do
        let plotted ← Op.execAll os' []
        H.op.exec plotted >>= q'.output : EvalM α _) := by
      rw [Program.step, Op.execAll_append, bind_assoc]
      exact congrArg _ (funext fun plotted => by simp [Op.execAll])
    rw [hstep']
    refine Concur.bind (hexecution.ops hos [] [] c c' hmatched).concur
      fun plotted d d' hd hmatched => ?_
    refine (Hoisting.Reaches.output h os _ s s' _).concur hmatched fun hs => hreached (hs.mono ?_)
    rw [Program.trace, onSuccess_ok hd]
    exact List.subset_append_right _ _

/-- **The bars of a run** do the same, if the series is reached at each of them. -/
theorem visits (h : Program.Hoisted H past p p') {bars : List Nat} {c c' : Context α}
    (hmatched : c.Matched ρ c')
    (hreached : ∀ d ∈ Runner.entered p bars c, ¬H.Skipped past (p.trace d)) :
    (Runner.visits p bars c).1 = .ok () ∧ (Runner.visits p' bars c').1 = .ok () ∧
        (Runner.visits p bars c).2.Matched ρ (Runner.visits p' bars c').2 ∨
      (Runner.visits p bars c).1 ≠ .ok () ∧ (Runner.visits p' bars c').1 ≠ .ok () := by
  induction bars generalizing c c' with
  | nil => exact .inl ⟨rfl, rfl, hmatched⟩
  | cons bar bars ih =>
    rw [Runner.entered, List.forall_mem_cons] at hreached
    obtain ⟨hbar, hrest⟩ := hreached
    have hstep := h.step (hmatched.enter bar) hbar
    rw [← List.singleton_append, Runner.visits_append, Runner.visits_append]
    rw [Runner.visits_bar] at hrest ⊢
    rw [Runner.visits_bar]
    cases hd : p.step (Engine.enter c bar) <;> cases hd' : p'.step (Engine.enter c' bar) <;>
      rw [hd, hd'] at hstep
    case ok.ok out e out' e' =>
      obtain ⟨rfl, he⟩ := hstep
      rw [hd] at hrest
      dsimp only at hrest ⊢
      have hsame : e'.results.push e'.bar out = e.results.push e.bar out := by
        rw [he.level.results, he.level.bar]
      cases hpush : e.results.push e.bar out with
      | error failure =>
        rw [Engine.collect_error hpush, Engine.collect_error (hsame.trans hpush)]
        exact .inr ⟨by rintro ⟨⟩, by rintro ⟨⟩⟩
      | ok results =>
        rw [Engine.collect_ok hpush] at hrest ⊢
        rw [Engine.collect_ok (hsame.trans hpush)]
        exact ih (he.leave results) hrest
    · exact hstep.elim
    · exact hstep.elim
    · exact .inr ⟨by rintro ⟨⟩, by rintro ⟨⟩⟩

/-- **Runs from the start.** -/
theorem runProgram (h : Program.Hoisted H past p p') (market : Market α) (precision : Precision)
    (useCache : Bool) (count : Option Nat) :
    let c : Context α := .fresh market precision useCache
    let run := Runner.runProgram p c count
    let run' := Runner.runProgram p' c count
    (∀ d ∈ Runner.entered p (Runner.window market count) c, ¬H.Skipped past (p.trace d)) →
      (run.1 = .ok () ↔ run'.1 = .ok ()) ∧ (run.1 = .ok () →
        run'.2.results = run.2.results ∧ run'.2.outputs = run.2.outputs ∧
          run'.2.maxPeriod = run.2.maxPeriod) := by
  intro c run run' hreached
  simp only [run, run', Runner.runProgram_eq]
  rcases h.visits (.fresh market precision useCache) hreached with ⟨hok, hok', hend⟩ | ⟨hno, hno'⟩
  · exact ⟨iff_of_true hok hok', fun _ =>
      ⟨hend.level.results, hend.level.outputs, congrArg Warmup.maxPeriod hend.warmup.symm⟩⟩
  · exact ⟨iff_of_false hno hno', fun hok => absurd hok hno⟩

end Program.Hoisted

end BarScript
