import BarScript.Proofs.Mirroring

/-!
# Statements at other numbers

A statement and the same statement at other positions mirror each other in a region
(`mirrors_statement`), and so do the statements of a script (`Resolved.mirror`).
-/

namespace BarScript.Resolve

variable {β γ : Type}

section

variable {ρ : Renaming} {D : Footprint} {reg : Region ρ D} {v : String}

/-! ## Options -/

theorem told_args {as as' : List (Arg Expr)} (h : List.Forall₂ (Arg.Rel (Expr.Retold v)) as as') :
    List.Forall₂ (Arg.Rel (Told reg v)) as as' :=
  h.imp fun _ _ ha => ⟨ha.1, ha.2, mirrors_expr _ ha.2⟩

theorem mirrors_drawnPositional {c c' : Call}
    (hargs : List.Forall₂ (Arg.Rel (Expr.Retold v)) c.args c'.args) (count : ArgCount) :
    Mirrors reg v (Node.AllRenamed ρ D) (positional c count) (positional c' count) :=
  have heach : Mirrors reg v (List.Forall₂ (Node.Renamed ρ D)) (each (fun a => expr a.value) c.args)
      (each (fun a => expr a.value) c'.args) := .each (hargs.imp fun _ _ ha => mirrors_expr _ ha.2)
  .after (free_checkPositional hargs count) fun _ _ _ => heach.mono fun _ _ h =>
    Node.allRenamed_iff.2 h

theorem slot_rel {ε ε' : Type} {R : ε → ε' → Prop} {b : BoundArgs ε} {b' : BoundArgs ε'}
    (h : b.Rel R b') (i : Nat) : Option.Rel R (b.slot i) (b'.slot i) := by
  have hi := rel_getElem? h.slots i
  unfold BoundArgs.slot
  generalize b.slots[i]? = o at hi
  generalize b'.slots[i]? = o' at hi
  cases hi with
  | none => exact .none
  | some h => exact h

mutual

theorem mirrors_option (x : Expr) {x' : Expr} (h : x.Retold v x') :
    Mirrors reg v (OptionNode.Renamed ρ D) (option x) (option x') := by
  have number : Mirrors reg v (OptionNode.Renamed ρ D) (do return .number (← expr x))
      (do return .number (← expr x')) := (mirrors_expr x h).map fun _ _ hn => .number hn
  rw [option.eq_def, option.eq_def]
  cases h with
  | text t => exact .pure (.text t)
  | flag b => exact .pure (.flag b)
  | @name n hn p q =>
    dsimp only
    split
    · cases Color.named? (String.ofList (n.toList.drop "color.".length)) with
      | some color => exact .pure (.text color)
      | none => exact .fail _ _
    · exact number
  | @call nm as as' has p q =>
    have hargs := (Expr.Retold.call nm has p q).args.2
    have hoptions : List.Forall₂ _ (CallOf.mk nm as p).args (CallOf.mk nm as' q).args :=
      mirrors_optionArgs as has
    dsimp only
    split
    · exact (mirrors_drawnPositional hargs _).map fun _ _ hns => .rgb hns
    split
    · refine .after (free_bind (CallOf.forall₂_attach hoptions) _ _) fun b b' hb => ?_
      have hbase := slot_rel hb 0
      have halpha := slot_rel hb 1
      generalize b.slot 0 = base at hbase
      generalize b'.slot 0 = base' at hbase
      generalize b.slot 1 = alpha at halpha
      generalize b'.slot 1 = alpha' at halpha
      cases hbase with
      | none => exact .fail _ _
      | some hbase =>
        cases halpha with
        | none => exact hbase.2.map fun _ _ h => .newColor h .none
        | some halpha =>
          exact hbase.2.bind fun _ _ hb => (mirrors_expr _ halpha.1).map fun _ _ ha =>
            .newColor hb (.some ha)
    · exact number
  | _ => exact number

theorem mirrors_optionArgs (as : List (Arg Expr)) {as' : List (Arg Expr)}
    (h : Arg.AllRetold v as as') :
    List.Forall₂ (Arg.Rel fun x x' => x.Retold v x' ∧
      Mirrors reg v (OptionNode.Renamed ρ D) (option x) (option x')) as as' := by
  cases h with
  | nil => exact .nil
  | @cons name x x' hx p q as as' has =>
    exact .cons ⟨rfl, hx, mirrors_option x hx⟩ (mirrors_optionArgs as has)

end

theorem mirrors_options {xs xs' : List (String × Expr)} (h : Keyed (Expr.Retold v) xs xs') :
    Mirrors reg v (Keyed (OptionNode.Renamed ρ D)) (options xs) (options xs') :=
  .each <| h.imp fun x _ hx => (mirrors_option x.2 hx.2).map fun _ _ ho => ⟨hx.1, ho⟩

/-! ## Drawings -/

/-- An option that is given by a parameter. -/
def given (a : String × Option Expr) : Option (String × Expr) := a.2.map (a.1, ·)

theorem optionArgs_eq (params : List String) (b : BoundArgs Expr) (first : Nat) :
    optionArgs params b first =
      ((params.drop first).zip (b.slots.drop first)).filterMap given ++ b.extra := by
  rw [List.zip, ← List.drop_zipWith]
  rfl

theorem given_keyed {R : Expr → Expr → Prop} {xs ys : List (String × Option Expr)}
    (h : List.Forall₂ (fun a b => b.1 = a.1 ∧ Option.Rel R a.2 b.2) xs ys) :
    Keyed R (xs.filterMap given) (ys.filterMap given) := by
  induction h with
  | nil => exact .nil
  | @cons x y xs ys hxy _ ih =>
    obtain ⟨name, slot⟩ := x
    obtain ⟨name', slot'⟩ := y
    obtain ⟨rfl, hslot⟩ := hxy
    cases hslot with
    | none => exact ih
    | some hx => exact .cons ⟨rfl, hx⟩ ih

theorem optionArgs_keyed {R : Expr → Expr → Prop} {b b' : BoundArgs Expr} (h : b.Rel R b')
    (params : List String) (first : Nat) :
    Keyed R (optionArgs params b first) (optionArgs params b' first) := by
  rw [optionArgs_eq, optionArgs_eq]
  exact List.rel_append (given_keyed (forall₂_zip (List.forall₂_drop first h.slots) _)) h.extra

section

variable {b b' : BoundArgs Expr} {i : Nat}

theorem free_required {R : Expr → Expr → Prop} (h : Option.Rel R (b.slot i) (b'.slot i))
    (c c' : Call) (params : List String) :
    Free R (required c params b i) (required c' params b' i) := by
  unfold required
  generalize b.slot i = x at h
  generalize b'.slot i = x' at h
  cases h with
  | none => exact fun _ => yields_fail
  | some h => exact fun _ => .pure ⟨rfl, _, h, fun _ => rfl⟩

theorem mirrors_requiredValue (h : Option.Rel (Expr.Retold v) (b.slot i) (b'.slot i)) (c c' : Call)
    (params : List String) :
    Mirrors reg v (Node.Renamed ρ D) (requiredValue c params b i)
      (requiredValue c' params b' i) :=
  .after (free_required h c c' params) fun _ _ hx => mirrors_expr _ hx

theorem free_text {x x' : Expr} (h : x.Retold v x') (what : String) :
    Free Eq (text what x) (text what x') := by
  cases h with
  | text t => exact fun _ => .pure ⟨rfl, t, rfl, fun _ => rfl⟩
  | _ => exact fun _ => yields_fail

theorem free_title (h : Option.Rel (Expr.Retold v) (b.slot i) (b'.slot i)) (default : String) :
    Free Eq (title b i default) (title b' i default) := by
  unfold title
  generalize b.slot i = x at h
  generalize b'.slot i = x' at h
  cases h with
  | none => exact fun _ => .pure ⟨rfl, default, rfl, fun _ => rfl⟩
  | some h => exact free_text h _

theorem free_text? (h : Option.Rel (Expr.Retold v) (b.slot i) (b'.slot i)) (what : String) :
    Free Eq (text? b i what) (text? b' i what) := by
  unfold text?
  generalize b.slot i = x at h
  generalize b'.slot i = x' at h
  cases h with
  | none => exact fun _ => .pure ⟨rfl, none, rfl, fun _ => rfl⟩
  | some h =>
    cases h with
    | text t => exact fun _ => .pure ⟨rfl, some t, rfl, fun _ => rfl⟩
    | _ => exact fun _ => .bind yields_fail

theorem free_overlay? (h : Option.Rel (Expr.Retold v) (b.slot i) (b'.slot i)) :
    Free Eq (overlay? b i) (overlay? b' i) := by
  unfold overlay?
  generalize b.slot i = x at h
  generalize b'.slot i = x' at h
  cases h with
  | none => exact fun _ => .pure ⟨rfl, none, rfl, fun _ => rfl⟩
  | some h =>
    cases h with
    | flag f => exact fun _ => .pure ⟨rfl, some f, rfl, fun _ => rfl⟩
    | _ => exact fun _ => yields_fail

theorem mirrors_plotTitle {x x' : Expr} (h : x.Retold v x') :
    Mirrors reg v Eq (plotTitle x) (plotTitle x') := by
  cases h with
  | text t => exact .pure rfl
  | name hn p q =>
    unfold plotTitle
    refine .get fun s s' hs => ?_
    have hbinding := hs.names _ hn
    generalize s.find? _ = o at hbinding
    generalize s'.find? _ = o' at hbinding
    cases hbinding with
    | none => exact .fail _ _
    | some hb =>
      cases hb with
      | series => exact .fail _ _
      | plot title => exact .pure rfl
  | _ => exact .fail _ _

end

section

variable {c c' : Call} (hargs : List.Forall₂ (Arg.Rel (Expr.Retold v)) c.args c'.args)
include hargs

theorem mirrors_plot (char : Bool) :
    Mirrors reg v (fun d d' => d.1.Renamed ρ D d'.1 ∧ d'.2 = d.2) (plot c char) (plot c' char) := by
  unfold plot
  refine .after (free_bind hargs _ _) fun b b' hb => ?_
  refine (mirrors_requiredValue (slot_rel hb 0) c c' _).bind fun _ _ hn => ?_
  refine .after (free_title (slot_rel hb 1) _) ?_
  rintro t _ rfl
  exact (mirrors_options (optionArgs_keyed hb _ _)).map fun _ _ hos => ⟨.plot t char hn hos, rfl⟩

theorem mirrors_candle (bar : Bool) :
    Mirrors reg v (Drawing.Renamed ρ D) (candle c bar) (candle c' bar) := by
  unfold candle
  refine .after (free_bind hargs _ _) fun b b' hb => ?_
  refine (mirrors_requiredValue (slot_rel hb 0) c c' _).bind fun _ _ ho => ?_
  refine (mirrors_requiredValue (slot_rel hb 1) c c' _).bind fun _ _ hh => ?_
  refine (mirrors_requiredValue (slot_rel hb 2) c c' _).bind fun _ _ hl => ?_
  refine (mirrors_requiredValue (slot_rel hb 3) c c' _).bind fun _ _ hc => ?_
  refine .after (free_title (slot_rel hb 4) _) ?_
  rintro t _ rfl
  exact (mirrors_options (optionArgs_keyed hb _ _)).map fun _ _ hos => .candle t bar ho hh hl hc hos

theorem mirrors_fill : Mirrors reg v (Drawing.Renamed ρ D) (fill c) (fill c') := by
  unfold fill
  refine .after (free_bind hargs _ _) fun b b' hb => ?_
  refine .after (free_required (slot_rel hb 0) c c' _) fun _ _ hx => ?_
  refine (mirrors_plotTitle hx).bind ?_
  rintro t _ rfl
  refine .after (free_required (slot_rel hb 1) c c' _) fun _ _ hy => ?_
  refine (mirrors_plotTitle hy).bind ?_
  rintro u _ rfl
  exact (mirrors_options (optionArgs_keyed hb _ _)).map fun _ _ hos => .fill t u hos

theorem mirrors_hline : Mirrors reg v (Drawing.Renamed ρ D) (hline c) (hline c') := by
  unfold hline
  refine .after (free_bind hargs _ _) fun b b' hb => ?_
  refine (mirrors_requiredValue (slot_rel hb 0) c c' _).bind fun _ _ hn => ?_
  refine .after (free_title (slot_rel hb 1) _) ?_
  rintro t _ rfl
  exact (mirrors_options (optionArgs_keyed hb _ _)).map fun _ _ hos => .hline t hn hos

theorem mirrors_indicator : Mirrors reg v (Drawing.Renamed ρ D) (indicator c) (indicator c') := by
  unfold indicator
  refine .after (free_bind hargs _ _) fun b b' hb => ?_
  refine .after (free_text? (slot_rel hb 0) _) ?_
  rintro t _ rfl
  refine .after (free_text? (slot_rel hb 1) _) ?_
  rintro u _ rfl
  refine .after (free_overlay? (slot_rel hb 2)) ?_
  rintro f _ rfl
  exact .pure (.indicator t u f)

theorem mirrors_drawing? (hname : c'.name = c.name) :
    Option.Rel (Mirrors reg v (Drawing.Renamed ρ D)) (drawing? c) (drawing? c') := by
  unfold drawing?
  rw [hname]
  have plot (char : Bool) : Mirrors reg v (Drawing.Renamed ρ D) (do return (← plot c char).1)
      (do return (← plot c' char).1) := (mirrors_plot hargs char).map fun _ _ h => h.1
  split
  · exact .some (plot false)
  · exact .some (plot true)
  · exact .some (mirrors_candle hargs false)
  · exact .some (mirrors_candle hargs true)
  · exact .some (mirrors_fill hargs)
  · exact .some (mirrors_hline hargs)
  · exact .some (mirrors_indicator hargs)
  · exact .none

end

end

/-! ## Statements -/

theorem mirrors_reassigned {ρ : Renaming} {D : Footprint} {reg : Region ρ D} {v n : String}
    (hn : n ≠ v) (p q : Nat) :
    Mirrors reg v (fun a a' => ρ.slot a = a') (reassigned n p) (reassigned n q) := by
  unfold reassigned
  refine .get fun s s' hs => ?_
  have hbinding := hs.names n hn
  generalize s.find? n = o at hbinding
  generalize s'.find? n = o' at hbinding
  cases hbinding with
  | none => exact .fail _ _
  | some hb =>
    cases hb with
    | plot title => exact .fail _ _
    | @series b i i' hb h => cases b <;> first | exact .fail _ _ | exact .pure h

section

variable {ρ : Renaming} {reg : Region ρ .all} {v : String}

theorem mirrors_declare {n : String} (hn : n ≠ v) (p q : Nat) {b b' : Binding}
    (hb : b.Renamed ρ b') :
    Mirrors reg v (fun _ _ => True) (declare n p b) (declare n q b') := by
  unfold declare
  refine .get fun s s' hs => ?_
  have hbinding := hs.names n hn
  generalize s.find? n = o at hbinding
  generalize s'.find? n = o' at hbinding
  cases hbinding with
  | some _ => exact fun _ _ _ => .bind yields_fail
  | none =>
    intro s s' hs
    rintro _ _ ⟨⟩ -
    exact ⟨(), _, rfl, trivial, hs.declare hb⟩

inductive Compiled.Renamed (ρ : Renaming) : Compiled → Compiled → Prop
  | op {o o' : Op} (h : o.Renamed ρ .all o') : Renamed ρ (.op o) (.op o')
  | result {r r' : Result} (h : r.Renamed ρ .all r') : Renamed ρ (.result r) (.result r')

theorem boundPlot?_rel (kind : DeclKind) {x x' : Expr} (h : x.Retold v x') :
    Option.Rel (Mirrors reg v fun d d' => d.1.Renamed ρ .all d'.1 ∧ d'.2 = d.2)
      (boundPlot? kind x) (boundPlot? kind x') := by
  cases kind with
  | binding =>
    cases h with
    | @call nm as as' has p q =>
      have hargs := (Expr.Retold.call nm has p q).args.2
      unfold boundPlot?
      dsimp only
      split
      · exact .some (mirrors_plot hargs false)
      split
      · exact .some (mirrors_plot hargs true)
      · exact .none
    | _ => exact .none
  | constant => exact .none
  | persistent => exact .none

theorem mirrors_declaration (kind : DeclKind) {n : String} (hn : n ≠ v) {x x' : Expr}
    (h : x.Retold v x') (p q : Nat) :
    Mirrors reg v (Op.Renamed ρ .all) (declaration kind n x p) (declaration kind n x' q) := by
  have hplot : Option.Rel (Mirrors reg v _) (boundPlot? kind x) (boundPlot? kind x') :=
    boundPlot?_rel kind h
  have hkeeps := fun m => keeps_boundPlot? kind x m
  unfold declaration
  generalize boundPlot? kind x = m at hplot hkeeps
  generalize boundPlot? kind x' = m' at hplot
  cases hplot with
  | some hm =>
    have := hkeeps _ rfl
    refine hm.bind fun d d' hd => ?_
    obtain ⟨d, t⟩ := d
    obtain ⟨d', _⟩ := d'
    obtain ⟨hd, rfl⟩ := hd
    exact (mirrors_declare hn p q (.plot _)).map fun _ _ _ => .draw hd
  | none =>
    have hdeclare {i i' : Nat} (hb : (Binding.series kind.bank i).Renamed ρ
        (.series kind.bank i')) : Mirrors reg v (fun _ _ => True) _ _ := mirrors_declare hn p q hb
    cases kind with
    | binding =>
      exact (mirrors_expr x h).bind fun _ _ hx => (Mirrors.slot _).bind fun i i' hi =>
        (hdeclare (.series (by decide) hi.1)).map fun _ _ _ => .set hi.1 trivial hx
    | constant =>
      exact (mirrors_expr x h).bind fun _ _ hx => (Mirrors.slot _).bind fun i i' hi =>
        (hdeclare (.series (by decide) hi.1)).map fun _ _ _ => .init hi.1 trivial hx
    | persistent =>
      exact (mirrors_expr x h).bind fun _ _ hx => (Mirrors.slot _).bind fun i i' hi =>
        (hdeclare (.series (by decide) hi.1)).map fun _ _ _ => .init hi.1 trivial hx

theorem mirrors_targets {ns : List String} (hns : v ∉ ns) (p q : Nat) :
    Mirrors reg v (List.Forall₂ fun i i' => ρ.slot (.bindings, i) = (.bindings, i') ∧
      Footprint.all.writes (.bindings, i)) (targets p ns) (targets q ns) := by
  induction ns with
  | nil => exact .pure .nil
  | cons n ns ih =>
    rw [List.mem_cons, not_or] at hns
    refine (Mirrors.slot .bindings).bind fun i i' hi => ?_
    refine (mirrors_declare (Ne.symm hns.1) p q (.series (by decide) hi.1)).bind fun _ _ _ => ?_
    exact (ih hns.2).map fun _ _ his => .cons hi his

theorem mirrors_fields {xs xs' : List (String × Expr)} (h : Keyed (Expr.Retold v) xs xs') :
    Mirrors reg v (Keyed (Node.Renamed ρ .all)) (fields xs) (fields xs') :=
  .each <| h.imp fun x _ hx => (mirrors_expr x.2 hx.2).map fun _ _ hn => ⟨hx.1, hn⟩

theorem mirrors_expression {x x' : Expr} (h : x.Retold v x') :
    Mirrors reg v (Op.Renamed ρ .all) (expression x) (expression x') := by
  have plain : Mirrors reg v (Op.Renamed ρ .all) (do return .eval (← expr x))
      (do return .eval (← expr x')) := (mirrors_expr x h).map fun _ _ hn => .eval hn
  unfold expression
  cases h with
  | @call nm as as' has p q =>
    obtain ⟨hname, hargs⟩ := (Expr.Retold.call nm has p q).args
    have hdrawing : Option.Rel (Mirrors reg v _) _ _ := mirrors_drawing? hargs hname
    have hkeeps := fun m => keeps_drawing? ⟨nm, as, p⟩ m
    dsimp only
    generalize drawing? ⟨nm, as, p⟩ = m at hdrawing hkeeps
    generalize drawing? ⟨nm, as', q⟩ = m' at hdrawing
    cases hdrawing with
    | none => exact plain
    | some hm =>
      have := hkeeps _ rfl
      exact hm.map fun _ _ hd => .draw hd
  | _ => exact plain

/-- **A statement** at another position gives the same with other numbers. -/
theorem mirrors_statement {st st' : Statement} (h : st.Retold v st') :
    Mirrors reg v (Compiled.Renamed ρ) (statement st) (statement st') := by
  cases h with
  | declare kind hn h p q => exact (mirrors_declaration kind hn h p q).map fun _ _ ho => .op ho
  | reassign hn h p q =>
    exact (mirrors_reassigned hn p q).bind fun a a' ha => (mirrors_expr _ h).map fun _ _ hx =>
      .op (.set ha trivial hx)
  | @unpack ns hns c c' h p q =>
    obtain ⟨hname, hargs⟩ := h.args
    refine (mirrors_study hname (told_args hargs)).bind fun k k' hk => ?_
    rw [hk.arity]
    split
    · exact fun _ _ _ => .bind yields_fail
    · exact (mirrors_targets hns p q).map fun _ _ hts => .op (.unpack hk hts)
  | expr h => exact (mirrors_expression h).map fun _ _ ho => .op ho
  | result h p q =>
    cases h with
    | single h => exact (mirrors_expr _ h).map fun _ _ hn => .result (.single hn)
    | named h => exact (mirrors_fields h).map fun _ _ hfs => .result (.named hfs)

end

/-- **Statements** at other positions give the same with other numbers. -/
theorem Resolved.mirror {ρ : Renaming} {reg : Region ρ .all} {v : String}
    {ss ss' : List Statement} (hss : List.Forall₂ (Statement.Retold v) ss ss') {s s' t : Scope}
    {os : List Op} {r : Option Result} (h : Resolved s ss os r t) (hs : reg.Shifted v s s')
    (hcovers : reg.Covers s t) :
    ∃ os' r' t', Resolved s' ss' os' r' t' ∧ List.Forall₂ (Op.Renamed ρ .all) os os' ∧
      Option.Rel (Result.Renamed ρ .all) r r' ∧ reg.Shifted v t t' := by
  induction h generalizing ss' s' with
  | nil =>
    cases hss
    exact ⟨[], none, s', .nil, .nil, .none, hs⟩
  | @op s s₁ t st ss o os r ho hos ih =>
    cases hss with
    | cons hst hss =>
      have hle := (inferInstance : Grows (statement st)).le s _ _ ho
      obtain ⟨c', s₁', hc', hc, hs₁⟩ :=
        mirrors_statement hst s s' hs _ _ ho (hcovers.left (le_resolved hos))
      obtain ⟨os', r', t', hos', hops, hresult, ht⟩ := ih hss hs₁ (hcovers.right hle)
      cases hc with
      | op hop => exact ⟨_, r', t', .op hc' hos', .cons hop hops, hresult, ht⟩
  | @result s t st r hr =>
    cases hss with
    | cons hst hss =>
      cases hss
      obtain ⟨c', t', hc', hc, ht⟩ := mirrors_statement hst s s' hs _ _ hr hcovers
      cases hc with
      | result hresult => exact ⟨[], _, t', .result hc', .nil, .some hresult, ht⟩

end BarScript.Resolve
