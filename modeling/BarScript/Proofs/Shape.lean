import BarScript.Proofs.Columns
import BarScript.Proofs.Spots
import BarScript.Proofs.Trace

/-!
# The columns of a script

What columns the results of a script have can be read off its statements (`columnNames?`): none
for single values, the keys of the record that it returns, or the titles that it plots.

* `parse_keys`: a record has no key twice.
* `compileStatements_names`: a compiled program gives what its statements say.
* `Program.step_names`: the names of an output are those of the program, at every bar.
* `Results.Holds.shaped`: outputs with the same names make columns with these names.
-/

namespace BarScript

/-! ## Statements -/

/-- What a statement returns. -/
def Statement.returned? : Statement → Option Returned
  | result value _ => some value
  | _ => none

/-- The names of the values in a record. -/
def Returned.names? : Returned → Option (List String)
  | single _ => none
  | named fields => some (fields.map (·.1))

/-- The title among the arguments of a plot. -/
def CallOf.title (c : Call) (params : List String) : String :=
  match c.bind params true with
  | .ok b =>
    match b.slot 1 with
    | some (.text s) => s
    | _ => "Plot"
  | .error _ => "Plot"

/-- The title of a call that plots. -/
def CallOf.plotTitle? (c : Call) : Option String :=
  if c.name = "plot" then some (c.title ["series", "title", "color", "linewidth", "style"])
  else if c.name = "plotchar" then some (c.title ["series", "title", "char", "location", "color"])
  else none

/-- The title that a statement plots. -/
def Statement.plotTitle? : Statement → Option String
  | declare .binding _ (.call c) _ => c.plotTitle?
  | expr (.call c) => c.plotTitle?
  | _ => none

/-- The names of the values that plots give; a script without plots gives a single value. -/
def namesOf? (titles : List String) : Option (List String) :=
  if titles.isEmpty then none else some titles

/-- The columns of the results of a script: none for single values, the keys of a returned record,
or the titles of the plots, each where it first comes up. -/
def columnNames? (ss : List Statement) : Option (List String) :=
  match ss.findSome? Statement.returned? with
  | some value => value.names?
  | none => (namesOf? (ss.filterMap Statement.plotTitle?)).map List.eraseDups

/-! ## Records have no key twice -/

/-- The keys of a record are distinct. -/
def Returned.Distinct : Returned → Prop
  | single _ => True
  | named fields => (fields.map (·.1)).Nodup

/-- What a statement returns has distinct keys. -/
def Statement.Distinct (st : Statement) : Prop := ∀ v, st.returned? = some v → v.Distinct

theorem Statement.distinct_of_none {st : Statement} (h : st.returned? = none) : st.Distinct := by
  intro v hv
  cases h.symm.trans hv

/-- What is read is in `P`. -/
def Gives {c : Cursor} {β : Type} (P : β → Prop) (m : Except SyntaxError (Parsed c β)) : Prop :=
  ∀ p, m = .ok p → P p.value

namespace Gives

variable {c : Cursor} {β γ : Type} {P : β → Prop}

theorem ok {p : Parsed c β} (h : P p.value) : Gives P (.ok p) := by
  rintro _ ⟨⟩
  exact h

theorem error (e : SyntaxError) : Gives P (.error e : Except SyntaxError (Parsed c β)) := nofun

theorem bind {m : Except SyntaxError γ} {f : γ → Except SyntaxError (Parsed c β)}
    (h : ∀ x, m = .ok x → Gives P (f x)) : Gives P (m >>= f) := by
  cases m with
  | error e => exact nofun
  | ok x => exact h x rfl

end Gives

namespace Cursor

/-- The keys of a record are distinct, and not among those that were seen before. -/
theorem gives_fields (seen : List String) (c : Cursor) :
    Gives (fun xs => (xs.map (·.1)).Nodup ∧ ∀ k ∈ seen, k ∉ xs.map (·.1)) (fields seen c) := by
  rw [fields]
  split
  · exact .ok (by simp [Parsed.map])
  · refine .bind fun key _ => ?_
    dsimp only
    split
    · exact .error _
    · rename_i hnew
      refine .bind fun value _ => ?_
      have hlater := value.later
      split
      · rename_i comma _
        have hcomma := comma.later
        refine .bind fun more hmore => .ok ?_
        obtain ⟨hnodup, hseen⟩ := gives_fields (key.value :: seen) comma.next more hmore
        refine ⟨List.nodup_cons.2 ⟨hseen _ (.head _), hnodup⟩, fun k hk => ?_⟩
        refine List.not_mem_cons_of_ne_of_not_mem ?_ (hseen k (.tail _ hk))
        rintro rfl
        exact hnew hk
      · refine .bind fun closing _ => .ok ⟨List.pairwise_singleton _ _, fun k hk hmem => hnew ?_⟩
        obtain rfl := List.mem_singleton.1 hmem
        exact hk
termination_by c.rest.length

theorem gives_returned (c : Cursor) : Gives Returned.Distinct (returned c) := by
  unfold returned
  split
  · exact .bind fun fields hfields => .ok (gives_fields _ _ fields hfields).1
  · exact .bind fun e _ => .ok trivial

/-- A declaration returns nothing. -/
theorem gives_declaration (c : Cursor) (kind : DeclKind) (position : Nat) :
    Gives Statement.Distinct (declaration c kind position) := by
  unfold declaration
  refine .bind fun name _ => ?_
  split
  · exact .bind fun value _ => .ok (Statement.distinct_of_none rfl)
  · exact .error _

/-- Neither does the assignment of a tuple. -/
theorem gives_tuple (c : Cursor) (position : Nat) :
    Gives Statement.Distinct (tuple c position) := by
  unfold tuple
  refine .bind fun names _ => .bind fun closing _ => ?_
  split
  · exact .bind fun call _ => .ok (Statement.distinct_of_none rfl)
  · exact .error _

theorem gives_statement (c : Cursor) : Gives Statement.Distinct (statement c) := by
  unfold statement
  dsimp only
  split
  · refine .bind fun value hvalue => .ok ?_
    rintro v ⟨⟩
    exact gives_returned _ value hvalue
  split
  · exact .bind fun st hst => .ok (gives_declaration _ _ _ st hst)
  split
  · exact .bind fun st hst => .ok (gives_declaration _ _ _ st hst)
  split
  · exact .bind fun st hst => .ok (gives_tuple _ _ st hst)
  split
  · rename_i s hs
    unfold assignment? at hs
    split at hs
    · cases hs
    · split at hs
      · cases hs
        exact .bind fun value _ => .ok (Statement.distinct_of_none rfl)
      · split at hs
        · cases hs
          exact .bind fun value _ => .ok (Statement.distinct_of_none rfl)
        · cases hs
  · exact .bind fun e _ => .ok (Statement.distinct_of_none rfl)

theorem statements_distinct (c : Cursor) :
    ∀ ss, statements c = .ok ss → ∀ st ∈ ss, st.Distinct := by
  intro ss h
  rw [statements] at h
  split at h
  · cases h
    exact nofun
  · cases hst : statement c.skipSeparators with
    | error e => rw [hst] at h; cases h
    | ok st =>
      rw [hst] at h
      have hlater := st.later
      have hskip : c.skipSeparators.rest.length ≤ c.rest.length := length_dropWhile_le ..
      replace h : (do
        endOfStatement st.next
        let more ← statements st.next
        return st.value :: more : Except SyntaxError _) = .ok ss := h
      cases hend : endOfStatement st.next with
      | error e => rw [hend] at h; cases h
      | ok _ =>
        rw [hend] at h
        cases hmore : statements st.next with
        | error e => rw [hmore] at h; cases h
        | ok more =>
          rw [hmore] at h
          cases h
          exact List.forall_mem_cons.2
            ⟨gives_statement _ st hst, statements_distinct st.next more hmore⟩
termination_by c.rest.length

end Cursor

/-- **A record has no key twice.** -/
theorem parse_keys {source : String} {ss : List Statement} (h : parse source = .ok ss) :
    ∀ st ∈ ss, st.Distinct :=
  Cursor.statements_distinct _ ss h

/-! ## Programs -/

/-- The title that a drawing plots. -/
def Drawing.plotTitle? : Drawing → Option String
  | plot _ title _ _ => some title
  | _ => none

/-- The title that an instruction plots. -/
def Op.plotTitle? : Op → Option String
  | draw d => d.plotTitle?
  | _ => none

/-- The names of the values in a result. -/
def Result.names? : Result → Option (List String)
  | single _ => none
  | named fields => some (fields.map (·.1))

/-- The names of the values that a program gives at a bar. -/
def Program.names? (p : Program) : Option (List String) :=
  match p.result with
  | some r => r.names?
  | none => namesOf? (p.ops.filterMap Op.plotTitle?)

namespace Resolve

/-- A plot has the title that its call gives. -/
theorem yields_plot_title (c : Call) (char : Bool) (s : Scope) :
    Yields (plot c char) s fun d _ => d.1.plotTitle? = some (c.title
      (if char then ["series", "title", "char", "location", "color"]
        else ["series", "title", "color", "linewidth", "style"])) := by
  refine .bind fun b s₁ hb => .bind fun v s₂ _ => .bind fun t s₃ ht => .bind fun os s₄ _ => ?_
  refine .pure (congrArg some ?_)
  unfold CallOf.title
  rw [bind_eq_ok hb]
  unfold title at ht
  dsimp only
  cases hslot : b.slot 1 with
  | none => rw [hslot] at ht; cases ht; rfl
  | some e =>
    rw [hslot] at ht
    cases e <;> cases ht
    rfl

theorem yields_drawing_title {c : Call} {m : ResolveM Drawing} (h : drawing? c = some m)
    (s : Scope) : Yields m s fun d _ => d.plotTitle? = c.plotTitle? := by
  have candle (bar : Bool) : Yields (candle c bar) s fun d _ => d.plotTitle? = none :=
    .bind fun _ _ _ => .bind fun _ _ _ => .bind fun _ _ _ => .bind fun _ _ _ =>
      .bind fun _ _ _ => .bind fun _ _ _ => .bind fun _ _ _ => .pure rfl
  have fill : Yields (fill c) s fun d _ => d.plotTitle? = none :=
    .bind fun _ _ _ => .bind fun _ _ _ => .bind fun _ _ _ => .bind fun _ _ _ =>
      .bind fun _ _ _ => .bind fun _ _ _ => .pure rfl
  have hline : Yields (hline c) s fun d _ => d.plotTitle? = none :=
    .bind fun _ _ _ => .bind fun _ _ _ => .bind fun _ _ _ => .bind fun _ _ _ => .pure rfl
  have indicator : Yields (indicator c) s fun d _ => d.plotTitle? = none :=
    .bind fun _ _ _ => .bind fun _ _ _ => .bind fun _ _ _ => .bind fun _ _ _ => .pure rfl
  unfold drawing? at h
  unfold CallOf.plotTitle?
  split at h <;> cases h <;> rename_i hname <;> rw [hname]
  · exact .bind ((yields_plot_title c false s).mono fun d s₁ hd => .pure hd)
  · exact .bind ((yields_plot_title c true s).mono fun d s₁ hd => .pure hd)
  · exact candle false
  · exact candle true
  · exact fill
  · exact hline
  · exact indicator

theorem plotTitle?_of_name {c : Call} {char : Bool}
    (h : c.name = if char then "plotchar" else "plot") :
    c.plotTitle? = some (c.title
      (if char then ["series", "title", "char", "location", "color"]
        else ["series", "title", "color", "linewidth", "style"])) := by
  unfold CallOf.plotTitle?
  rw [h]
  cases char <;> rfl

theorem plotTitle?_of_boundPlot? {c : Call} (h : boundPlot? .binding (.call c) = none) :
    c.plotTitle? = none := by
  unfold CallOf.plotTitle?
  rw [if_neg, if_neg]
  · intro hname
    simp [boundPlot?, hname] at h
  · intro hname
    simp [boundPlot?, hname] at h

theorem plotTitle?_of_drawing? {c : Call} (h : drawing? c = none) : c.plotTitle? = none := by
  unfold CallOf.plotTitle?
  rw [if_neg, if_neg]
  · intro hname
    simp [drawing?, hname] at h
  · intro hname
    simp [drawing?, hname] at h

theorem yields_expression_title (e : Expr) (s : Scope) :
    Yields (expression e) s fun o _ => o.plotTitle? = (Statement.expr e).plotTitle? := by
  unfold expression
  dsimp only
  split
  · rename_i c
    split
    · rename_i m hm
      exact .bind ((yields_drawing_title hm s).mono fun d s₁ hd => .pure hd)
    · rename_i hm
      exact .bind fun n s₁ _ => .pure (plotTitle?_of_drawing? hm).symm
  · rename_i hcall
    refine .bind fun n s₁ _ => .pure ?_
    unfold Statement.plotTitle?
    split
    · contradiction
    · rename_i c heq
      cases heq
      exact absurd rfl (hcall c)
    · rfl

theorem yields_declaration_title (kind : DeclKind) (nm : String) (value : Expr) (position : Nat)
    (s : Scope) : Yields (declaration kind nm value position) s fun o _ =>
      o.plotTitle? = (Statement.declare kind nm value position).plotTitle? := by
  unfold declaration
  split
  · rename_i m hm
    obtain ⟨c, char, rfl, rfl, hname, rfl⟩ := boundPlot?_eq_some hm
    have htitle := plotTitle?_of_name hname
    refine .bind ((yields_plot_title c char s).mono fun d s₁ hd => .bind fun _ _ _ => .pure ?_)
    exact hd.trans htitle.symm
  · rename_i hnone
    have htitle : (Statement.declare kind nm value position).plotTitle? = none := by
      unfold Statement.plotTitle?
      split
      · rename_i heq
        cases heq
        exact plotTitle?_of_boundPlot? hnone
      · contradiction
      · rfl
    rw [htitle]
    refine .bind fun v s₁ _ => .bind fun id s₂ _ => .bind fun _ s₃ _ => ?_
    split <;> exact .pure rfl

theorem yields_fields_keys (xs : List (String × Expr)) (s : Scope) :
    Yields (fields xs) s fun fs _ => fs.map (·.1) = xs.map (·.1) := by
  have hmap : ∀ {xs : List (String × Expr)} {fs : List (String × Node)},
      List.Forall₂ (fun x f => f.1 = x.1) xs fs → fs.map (·.1) = xs.map (·.1) := fun h => by
    induction h with
    | nil => rfl
    | cons hkey _ ih => rw [List.map_cons, List.map_cons, hkey, ih]
  have hpair : ∀ (x : String × Expr) s, Yields (do return (x.1, ← expr x.2)) s fun f _ =>
      f.1 = x.1 := fun _ _ => .bind fun _ _ _ => .pure rfl
  have hpairs : Yields (fields xs) s fun fs _ => List.Forall₂ (fun x f => f.1 = x.1) xs fs :=
    yields_each_forall₂ (fun x _ => hpair x) s
  exact hpairs.mono fun _ _ => hmap

/-- What a statement becomes says what the statement says. -/
theorem yields_statement_names (st : Statement) (s : Scope) : Yields (statement st) s fun c _ =>
    match c with
    | .op o => st.returned? = none ∧ o.plotTitle? = st.plotTitle?
    | .result r => ∃ v, st.returned? = some v ∧ r.names? = v.names? := by
  cases st with
  | declare kind nm value position =>
    exact .bind ((yields_declaration_title kind nm value position s).mono fun o _ ho =>
      .pure ⟨rfl, ho⟩)
  | reassign nm value position => exact .bind fun _ _ _ => .bind fun _ _ _ => .pure ⟨rfl, rfl⟩
  | unpack names c position =>
    refine .bind fun k s₁ _ => ?_
    dsimp only
    split
    · exact .bind yields_fail
    · exact .bind fun _ _ _ => .pure ⟨rfl, rfl⟩
  | expr e => exact .bind ((yields_expression_title e s).mono fun o _ ho => .pure ⟨rfl, ho⟩)
  | result value position =>
    cases value with
    | single e => exact .bind fun n _ _ => .pure ⟨_, rfl, rfl⟩
    | named xs =>
      exact .bind ((yields_fields_keys xs s).mono fun fs _ hfs => .pure ⟨_, rfl, congrArg some hfs⟩)

/-- Instructions plot what their statements plot. -/
theorem Resolved.plotTitles {ss : List Statement} {s s' : Scope} {os : List Op}
    {r : Option Result} (h : Resolved s ss os r s') :
    os.filterMap Op.plotTitle? = ss.filterMap Statement.plotTitle? := by
  induction h with
  | nil => rfl
  | op ho _ ih =>
    rw [List.filterMap_cons, List.filterMap_cons, (yields_statement_names _ _ _ _ ho).2, ih]
  | @result s s' st r hr =>
    obtain ⟨v, hv, -⟩ := yields_statement_names _ _ _ _ hr
    cases st with
    | result value position => rfl
    | _ => cases hv

/-- A program without a result is one of statements that return nothing. -/
theorem Resolved.not_returned {ss : List Statement} {s s' : Scope} {os : List Op}
    (h : Resolved s ss os none s') : ss.findSome? Statement.returned? = none := by
  generalize hr : none = r at h
  induction h with
  | nil => rfl
  | op ho _ ih =>
    rw [List.findSome?_cons, (yields_statement_names _ _ _ _ ho).1]
    exact ih hr
  | result _ => cases hr

/-- A result has the names that its statement returns. -/
theorem Resolved.returned {ss : List Statement} {s s' : Scope} {os : List Op} {r : Result}
    (h : Resolved s ss os (some r) s') : ∃ v, ss.findSome? Statement.returned? = some v ∧
      r.names? = v.names? := by
  generalize hr : some r = r' at h
  induction h with
  | nil => cases hr
  | op ho _ ih =>
    rw [List.findSome?_cons, (yields_statement_names _ _ _ _ ho).1]
    exact ih hr
  | result hstatement =>
    cases hr
    obtain ⟨v, hv, hnames⟩ := yields_statement_names _ _ _ _ hstatement
    exact ⟨v, by rw [List.findSome?_cons, hv], hnames⟩

theorem Resolved.result_eq_none {ss : List Statement} {s s' : Scope} {os : List Op}
    {r : Option Result} (h : Resolved s ss os r s')
    (hnone : ss.findSome? Statement.returned? = none) : r = none := by
  cases r with
  | none => rfl
  | some r =>
    obtain ⟨v, hv, -⟩ := h.returned
    cases hnone.symm.trans hv

end Resolve

theorem eraseDups_of_nodup {names : List String} (h : names.Nodup) : names.eraseDups = names := by
  induction names with
  | nil => rfl
  | cons n rest ih =>
    obtain ⟨hn, hrest⟩ := List.nodup_cons.1 h
    rw [List.eraseDups_cons, List.filter_eq_self.2, ih hrest]
    rintro m hm
    simpa using fun heq : m = n => hn (heq ▸ hm)

/-- **A compiled program** gives the names that its statements say. -/
theorem compileStatements_names {ss : List Statement} {p : Program}
    (h : compileStatements ss = .ok p) (hdistinct : ∀ st ∈ ss, st.Distinct) :
    p.names?.map List.eraseDups = columnNames? ss := by
  obtain ⟨s', hresolved, -⟩ := compileStatements_ok_iff.1 h
  unfold Program.names? columnNames?
  cases hresult : p.result with
  | none =>
    rw [hresult] at hresolved
    rw [hresolved.not_returned, hresolved.plotTitles]
  | some r =>
    rw [hresult] at hresolved
    obtain ⟨v, hv, hr⟩ := hresolved.returned
    rw [hv]
    dsimp only
    rw [hr]
    obtain ⟨st, hst, hreturned⟩ := List.exists_of_findSome?_eq_some hv
    have hv := hdistinct st hst v hreturned
    cases v with
    | single e => rfl
    | named fields => exact congrArg some (eraseDups_of_nodup hv)

/-! ## Outputs -/

variable {α : Type} [Arith α]

/-- The names of the values in an output. -/
def StepOutput.names? : StepOutput α → Option (List String)
  | scalar _ => none
  | named fields => some (fields.map (·.1))

/-- If a computation succeeds, its result is in `P`. -/
def Returns {β : Type} (P : β → Prop) (m : EvalM α β) : Prop :=
  ∀ c x c', m c = .ok x c' → P x

namespace Returns

variable {β γ : Type} {P : β → Prop}

omit [Arith α] in
theorem pure {x : β} (h : P x) : Returns P (pure x : EvalM α β) := by
  rintro c _ c' ⟨⟩
  exact h

omit [Arith α] in
theorem bind {m : EvalM α γ} {f : γ → EvalM α β} (h : ∀ x, Returns P (f x)) :
    Returns P (m >>= f) := by
  intro c y c' hy
  obtain ⟨x, c₁, -, hx⟩ := eval_bind_ok hy
  exact h x c₁ y c' hx

end Returns

/-- A drawing adds its title to those that have been plotted. -/
theorem Drawing.perform_titles (d : Drawing) (plotted : Plotted α) : Returns
    (fun plotted' => plotted'.map (·.1) = plotted.map (·.1) ++ d.plotTitle?.toList)
    (d.perform plotted) := by
  cases d with
  | plot value title options char => exact .bind fun v => .bind fun _ => .bind fun _ => .pure (by
      rw [List.map_append]; rfl)
  | candle opening high low close title options bar =>
    exact .bind fun _ => .bind fun _ => .bind fun _ => .bind fun _ => .bind fun _ => .bind fun _ =>
      .pure (List.append_nil _).symm
  | fill plot1 plot2 options => exact .bind fun _ => .bind fun _ => .pure (List.append_nil _).symm
  | hline price title options =>
    exact .bind fun _ => .bind fun _ => .bind fun _ => .pure (List.append_nil _).symm
  | indicator title shortTitle overlay => exact .bind fun _ => .pure (List.append_nil _).symm

theorem Op.exec_titles (o : Op) (plotted : Plotted α) : Returns
    (fun plotted' => plotted'.map (·.1) = plotted.map (·.1) ++ o.plotTitle?.toList)
    (o.exec plotted) := by
  have same : plotted.map (·.1) = plotted.map (·.1) ++ [] := (List.append_nil _).symm
  cases o with
  | set bank id value => exact .bind fun _ => .bind fun _ => .pure same
  | init bank id value =>
    refine .bind fun ctx => ?_
    dsimp only
    split
    · exact .bind fun _ => .bind fun _ => .pure same
    · exact .pure same
  | unpack call targets => exact .bind fun _ => .bind fun _ => .pure same
  | eval n => exact .bind fun _ => .pure same
  | draw d => exact d.perform_titles plotted

theorem Op.execAll_titles (os : List Op) (plotted : Plotted α) : Returns
    (fun plotted' => plotted'.map (·.1) = plotted.map (·.1) ++ os.filterMap Op.plotTitle?)
    (Op.execAll os plotted) := by
  induction os generalizing plotted with
  | nil => exact .pure (List.append_nil _).symm
  | cons o os ih =>
    intro c plotted' c' h
    obtain ⟨plotted₁, c₁, ho, hos⟩ := eval_bind_ok h
    rw [ih plotted₁ _ _ _ hos, o.exec_titles plotted _ _ _ ho, List.append_assoc,
      List.filterMap_cons]
    cases o.plotTitle? <;> rfl

theorem evalFields_keys (fs : List (String × Node)) : Returns
    (fun values : List (String × Value α) => values.map (·.1) = fs.map (·.1)) (evalFields fs) := by
  induction fs with
  | nil => exact .pure rfl
  | cons f fs ih =>
    refine .bind fun v c values c' h => ?_
    obtain ⟨rest, c₁, hrest, h⟩ := eval_bind_ok h
    cases h
    rw [List.map_cons, List.map_cons, ih _ _ _ hrest]

theorem Program.output_names (p : Program) (plotted : Plotted α) : Returns
    (fun out => out.names? = match p.result with
      | some r => r.names?
      | none => namesOf? (plotted.map (·.1))) (p.output plotted) := by
  unfold Program.output
  rcases p.result with _ | ⟨n⟩ | ⟨fs⟩
  · refine .pure ?_
    cases plotted <;> rfl
  · exact .bind fun v => .pure rfl
  · intro c out c' h
    obtain ⟨values, c₁, hvalues, h⟩ := eval_bind_ok h
    cases h
    exact congrArg some (evalFields_keys fs _ _ _ hvalues)

/-- **The names of an output** are those of the program, at every bar. -/
theorem Program.step_names (p : Program) :
    Returns (fun out : StepOutput α => out.names? = p.names?) p.step := by
  intro c out c' h
  obtain ⟨plotted, c₁, hops, h⟩ := eval_bind_ok h
  have htitles := Op.execAll_titles p.ops [] _ _ _ hops
  rw [List.map_nil, List.nil_append] at htitles
  rw [p.output_names plotted _ _ _ h, htitles]
  rfl

/-! ## Results -/

namespace Results

/-- Results with `n` rows and the columns `names`, or a single column without names. -/
structure Shaped (r : Results α) (names : Option (List String)) (n : Nat) : Prop where
  rows : r.rows = n
  unstarted : n = 0 → r.columns = .none
  scalar : 0 < n → names = none → ∃ values, r.columns = .scalar values ∧ values.size = n
  named : 0 < n → ∀ ns, names = some ns → ∃ columns, r.columns = .named columns ∧
    columns.map (·.1) = ns ∧ ∀ c ∈ columns, c.2.size = n

/-- Names that come again are not new. -/
theorem eraseDups_flatMap_const {β : Type} {items : List β} (hitems : items ≠ [])
    {f : β → List String} {names : List String} (hf : ∀ x ∈ items, f x = names) :
    (items.flatMap f).eraseDups = names.eraseDups := by
  cases items with
  | nil => exact absurd rfl hitems
  | cons x rest =>
    have hold : (rest.flatMap f).removeAll names = [] := by
      rw [List.removeAll, List.filter_eq_nil_iff]
      intro n hn
      obtain ⟨y, hy, hn⟩ := List.mem_flatMap.1 hn
      rw [hf y (.tail _ hy)] at hn
      simpa using hn
    rw [List.flatMap_cons, hf x (.head _), List.eraseDups_append, hold]
    simp

/-- **Outputs with the same names** make one column for each name. -/
theorem Holds.shaped {r : Results α} {outputs : List (StepOutput α)}
    {names : Option (List String)} (h : r.Holds outputs)
    (hnames : ∀ o ∈ outputs, o.names? = names) :
    r.Shaped (names.map List.eraseDups) outputs.length where
  rows := h.rows
  unstarted hn := h.none.2 (List.length_eq_zero_iff.1 hn)
  scalar hn hsingle := by
    obtain rfl : names = .none := Option.map_eq_none_iff.1 hsingle
    obtain ⟨o, ho⟩ := List.exists_mem_of_length_pos hn
    have ho' := hnames o ho
    cases hcolumns : r.columns with
    | none => exact absurd (h.none.1 hcolumns) (List.ne_nil_of_length_pos hn)
    | scalar values => exact ⟨values, rfl, (h.scalar values hcolumns).2.1.trans h.rows⟩
    | named columns =>
      have hnamed := (h.named columns hcolumns).1 o ho
      cases o with
      | scalar v => cases hnamed
      | named fields => cases ho'
  named hn ns hns := by
    obtain ⟨ks, rfl, rfl⟩ := Option.map_eq_some_iff.1 hns
    obtain ⟨o, ho⟩ := List.exists_mem_of_length_pos hn
    have ho' := hnames o ho
    cases hcolumns : r.columns with
    | none => exact absurd (h.none.1 hcolumns) (List.ne_nil_of_length_pos hn)
    | scalar values =>
      have hscalar := (h.scalar values hcolumns).1 o ho
      cases o with
      | scalar v => cases ho'
      | named fields => cases hscalar
    | named columns =>
      obtain ⟨-, -, hkeys, hentries⟩ := h.named columns hcolumns
      refine ⟨columns, rfl, ?_, fun c hc => (hentries c hc).1.trans h.rows⟩
      rw [hkeys]
      refine eraseDups_flatMap_const (List.ne_nil_of_length_pos hn) fun o ho => ?_
      have ho' := hnames o ho
      cases o with
      | scalar v => cases ho'
      | named fields => exact Option.some.inj ho'

end Results

end BarScript
