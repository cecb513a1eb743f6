import Mathlib.Algebra.Group.End
import Mathlib.Logic.Equiv.Fintype
import BarScript.Proofs.Respelling

/-!
# Programs under other names

Drawings, statements and programs follow a respelling as expressions do (`follows_statement`). A
program may choose other plain names for its variables, as long as they are new to it and differ
(`Respells`); it then compiles to the same program, or is rejected at the same place
(`compile_renamed`).
-/

namespace BarScript

namespace Resolve

variable {r : Respelling}

/-! ## Options -/

theorem follows_drawnPositional (c : Call) (count : ArgCount) :
    Follows r id (positional c count) (positional (c.renamed r.name) count) :=
  (follows_checkPositional c count).bind fun _ =>
    Follows.each_id fun a _ => follows_expr a.value

theorem slot_map {ε ε' : Type} (g : ε → ε') (b : BoundArgs ε) (i : Nat) :
    (b.map g).slot i = (b.slot i).map g := by
  rw [BoundArgs.slot, BoundArgs.slot, BoundArgs.map, List.getElem?_map]
  cases b.slots[i]? with
  | none => rfl
  | some o => cases o <;> rfl

theorem follows_option (e : Expr) : Follows r id (option e) (option (e.renamed r.name)) := by
  have number : Follows r id (do return OptionNode.number (← expr e))
      (do return OptionNode.number (← expr (e.renamed r.name))) :=
    Follows.map (follows_expr e) fun _ => rfl
  cases e with
  | text t => rw [Expr.renamed, option]; exact .pure _
  | flag f => rw [Expr.renamed, option]; exact .pure _
  | name n position =>
    rw [Expr.renamed] at number ⊢
    rw [option, option]
    rcases r.plain n with hsame | ⟨hn, hn'⟩
    · rw [hsame] at number ⊢
      split
      · cases Color.named? (String.ofList (n.toList.drop "color.".length)) with
        | some color => exact .pure _
        | none => exact .fail _ _ _
      · exact number
    -- a plain name is no color
    · have hcolor (m : String) (hm : PlainName m) : ¬m.startsWith "color." = true := by
        rw [hm.startsWith (by decide)]
        exact Bool.false_ne_true
      rw [if_neg (hcolor _ hn), if_neg (hcolor _ hn')]
      exact number
  | call c =>
    rw [Expr.renamed_call] at number ⊢
    rw [option, option]
    have hname : (c.renamed r.name).name = c.name := rfl
    rw [hname]
    split
    · exact (follows_drawnPositional c _).map fun _ => rfl
    split
    · rw [CallOf.attach_map]
      refine (follows_bind _ _ _ _).bind fun b => ?_
      rw [slot_map, slot_map]
      cases b.slot 0 with
      | none => exact .fail _ _ _
      | some base =>
        have := sizeOf_arg_lt base.2
        refine Follows.bind (g := id) (follows_option base.1) fun o => ?_
        cases b.slot 1 with
        | none => exact .pure _
        | some alpha => exact Follows.map (follows_expr alpha.1) fun _ => rfl
    · exact number
  | _ => rw [option.eq_def, option.eq_def]; exact number
termination_by sizeOf e
decreasing_by subst_vars; simp only [Expr.call.sizeOf_spec]; omega

theorem follows_options (xs : List (String × Expr)) :
    Follows r id (options xs) (options (xs.map (Prod.map id (Expr.renamed r.name)))) :=
  Follows.each_id fun x _ => Follows.map (follows_option x.2) fun _ => rfl

theorem optionArgs_map (g : Expr → Expr) (params : List String) (b : BoundArgs Expr) (first : Nat) :
    optionArgs params (b.map g) first = (optionArgs params b first).map (Prod.map id g) := by
  have hzip : params.zip (b.map g).slots = (params.zip b.slots).map (Prod.map id (Option.map g)) :=
    List.zip_map_right ..
  rw [optionArgs, optionArgs, hzip, ← List.map_drop, List.filterMap_map, List.map_append,
    List.map_filterMap]
  congr 1
  refine List.filterMap_congr fun x _ => ?_
  obtain ⟨name, slot⟩ := x
  cases slot <;> rfl

/-! ## Drawings -/

section

variable (b : BoundArgs Expr) (i : Nat)

theorem follows_required (c : Call) (params : List String) :
    Follows r (Expr.renamed r.name) (required c params b i)
      (required (c.renamed r.name) params (b.map (Expr.renamed r.name)) i) := by
  rw [required, required, slot_map]
  cases b.slot i with
  | none => exact .fail _ _ _
  | some e => exact .pure e

theorem follows_requiredValue (c : Call) (params : List String) :
    Follows r id (requiredValue c params b i)
      (requiredValue (c.renamed r.name) params (b.map (Expr.renamed r.name)) i) :=
  (follows_required b i c params).bind follows_expr

theorem follows_failAt {β γ : Type} {g : β → γ} (e : Expr) (fault : ResolveFault) :
    Follows r g (fail e.position fault) (fail (e.renamed r.name).position fault) := by
  rw [e.position_renamed]
  exact .fail _ _ _

theorem follows_text (what : String) (e : Expr) :
    Follows r id (text what e) (text what (e.renamed r.name)) := by
  have other := follows_failAt (r := r) (g := (id : String → String)) e (.notText what)
  cases e with
  | text t => exact .pure t
  | _ => exact other

theorem follows_title (default : String) :
    Follows r id (title b i default) (title (b.map (Expr.renamed r.name)) i default) := by
  rw [title, title, slot_map]
  cases b.slot i with
  | none => exact .pure _
  | some e => exact follows_text _ e

theorem follows_text? (what : String) :
    Follows r id (text? b i what) (text? (b.map (Expr.renamed r.name)) i what) := by
  rw [text?, text?, slot_map]
  cases b.slot i with
  | none => exact .pure _
  | some e => exact (follows_text what e).map fun _ => rfl

theorem follows_plotTitle (e : Expr) :
    Follows r id (plotTitle e) (plotTitle (e.renamed r.name)) := by
  have other := follows_failAt (r := r) (g := (id : String → String)) e .fillNeedsPlot
  cases e with
  | text t => exact .pure t
  | name n position =>
    refine .get fun s => ?_
    rw [r.find?_renamed]
    cases s.find? n with
    | none => exact .fail _ _ _
    | some binding =>
      cases binding with
      | series bank id => exact .fail _ _ _
      | plot title => exact .pure _
  | _ => exact other

theorem follows_overlay? :
    Follows r id (overlay? b i) (overlay? (b.map (Expr.renamed r.name)) i) := by
  rw [overlay?, overlay?, slot_map]
  cases b.slot i with
  | none => exact .pure _
  | some e =>
    have other := follows_failAt (r := r) (g := (id : Option Bool → Option Bool)) e .overlayNotFlag
    cases e with
    | flag f => exact .pure _
    | _ => exact other

end

section

variable (c : Call)

theorem follows_plot (char : Bool) :
    Follows r id (plot c char) (plot (c.renamed r.name) char) := by
  refine (follows_bind _ _ _ _).bind fun b => ?_
  refine (follows_requiredValue b 0 c _).bind fun value => ?_
  refine (follows_title b 1 _).bind fun title => ?_
  rw [optionArgs_map]
  exact (follows_options _).map fun _ => rfl

theorem follows_candle (bar : Bool) :
    Follows r id (candle c bar) (candle (c.renamed r.name) bar) := by
  refine (follows_bind _ _ _ _).bind fun b => ?_
  refine (follows_requiredValue b 0 c _).bind fun opening => ?_
  refine (follows_requiredValue b 1 c _).bind fun high => ?_
  refine (follows_requiredValue b 2 c _).bind fun low => ?_
  refine (follows_requiredValue b 3 c _).bind fun close => ?_
  refine (follows_title b 4 _).bind fun title => ?_
  rw [optionArgs_map]
  exact (follows_options _).map fun _ => rfl

theorem follows_fill : Follows r id (fill c) (fill (c.renamed r.name)) := by
  refine (follows_bind _ _ _ _).bind fun b => ?_
  refine (follows_required b 0 c _).bind fun e => ?_
  refine (follows_plotTitle e).bind fun plot1 => ?_
  refine (follows_required b 1 c _).bind fun e => ?_
  refine (follows_plotTitle e).bind fun plot2 => ?_
  rw [optionArgs_map]
  exact (follows_options _).map fun _ => rfl

theorem follows_hline : Follows r id (hline c) (hline (c.renamed r.name)) := by
  refine (follows_bind _ _ _ _).bind fun b => ?_
  refine (follows_requiredValue b 0 c _).bind fun price => ?_
  refine (follows_title b 1 _).bind fun title => ?_
  rw [optionArgs_map]
  exact (follows_options _).map fun _ => rfl

theorem follows_indicator : Follows r id (indicator c) (indicator (c.renamed r.name)) := by
  refine (follows_bind _ _ _ _).bind fun b => ?_
  refine (follows_text? b 0 _).bind fun title => ?_
  refine (follows_text? b 1 _).bind fun shortTitle => ?_
  exact (follows_overlay? b 2).map fun _ => rfl

/-- A call draws under the new names if it does under the old ones, and the same. -/
theorem drawing?_renamed :
    Option.Rel (Follows r id) (drawing? c) (drawing? (c.renamed r.name)) := by
  unfold drawing?
  dsimp only [CallOf.renamed, CallOf.map]
  split
  · exact .some ((follows_plot c false).map fun _ => rfl)
  · exact .some ((follows_plot c true).map fun _ => rfl)
  · exact .some (follows_candle c false)
  · exact .some (follows_candle c true)
  · exact .some (follows_fill c)
  · exact .some (follows_hline c)
  · exact .some (follows_indicator c)
  · exact .none

end

/-! ## Statements -/

theorem boundPlot?_renamed (kind : DeclKind) (value : Expr) :
    Option.Rel (Follows r id) (boundPlot? kind value) (boundPlot? kind (value.renamed r.name)) := by
  cases kind with
  | binding =>
    cases value with
    | call c =>
      have hname : (c.renamed r.name).name = c.name := rfl
      rw [Expr.renamed_call, boundPlot?, boundPlot?, hname]
      split
      · exact .some (follows_plot c false)
      split
      · exact .some (follows_plot c true)
      · exact .none
    | _ => exact .none
  | _ => exact .none

theorem follows_declaration (kind : DeclKind) (n : String) (value : Expr) (position : Nat) :
    Follows r id (declaration kind n value position)
      (declaration kind (r.name n) (value.renamed r.name) position) := by
  have hplot := boundPlot?_renamed (r := r) kind value
  rw [declaration, declaration]
  generalize boundPlot? kind value = p at hplot
  generalize boundPlot? kind (value.renamed r.name) = p' at hplot
  cases hplot with
  | some hplot =>
    refine Follows.bind hplot fun drawn => ?_
    exact (follows_declare n position _).bind fun _ => .pure _
  | none =>
    refine Follows.bind (g := id) (follows_expr value) fun v => ?_
    refine (follows_slot _).bind fun id => ?_
    refine (follows_declare n position _).bind fun _ => ?_
    cases kind <;> exact .pure _

theorem follows_reassigned (n : String) (position : Nat) :
    Follows r id (reassigned n position) (reassigned (r.name n) position) := by
  refine .get fun s => ?_
  rw [r.find?_renamed]
  cases s.find? n with
  | none => exact .fail _ _ _
  | some b =>
    cases b with
    | plot title => exact .fail _ _ _
    | series bank id =>
      cases bank with
      | constants => exact .fail _ _ _
      | _ => exact .pure _

theorem follows_targets (position : Nat) (ns : List String) :
    Follows r id (targets position ns) (targets position (ns.map r.name)) := by
  induction ns with
  | nil => exact .pure _
  | cons n ns ih =>
    refine (follows_slot _).bind fun id => ?_
    refine (follows_declare n position _).bind fun _ => ?_
    exact ih.map fun _ => rfl

theorem follows_fields (xs : List (String × Expr)) :
    Follows r id (fields xs) (fields (xs.map (Prod.map id (Expr.renamed r.name)))) :=
  Follows.each_id fun x _ => Follows.map (follows_expr x.2) fun _ => rfl

theorem follows_expression (e : Expr) :
    Follows r id (expression e) (expression (e.renamed r.name)) := by
  have plain : Follows r id (do return Op.eval (← expr e))
      (do return Op.eval (← expr (e.renamed r.name))) := Follows.map (follows_expr e) fun _ => rfl
  cases e with
  | call c =>
    have hdrawing := drawing?_renamed (r := r) c
    rw [Expr.renamed_call] at plain ⊢
    rw [expression, expression]
    generalize drawing? c = d at hdrawing
    generalize drawing? (c.renamed r.name) = d' at hdrawing
    cases hdrawing with
    | some hd => exact hd.map fun _ => rfl
    | none => exact plain
  | _ => exact plain

/-- **Statements** do the same under the new names. -/
theorem follows_statement (st : Statement) :
    Follows r id (statement st) (statement (st.renamed r.name)) := by
  cases st with
  | declare kind n value position =>
    exact (follows_declaration kind n value position).map fun _ => rfl
  | reassign n value position =>
    refine (follows_reassigned n position).bind fun target => ?_
    exact Follows.map (follows_expr value) fun _ => rfl
  | unpack ns c position =>
    rw [Statement.renamed, statement, statement, List.length_map]
    refine (follows_study fun a _ => follows_expr a.value).bind fun k => ?_
    have htargets : Follows r id (do return Compiled.op (.unpack k (← targets position ns)))
        (do return Compiled.op (.unpack k (← targets position (ns.map r.name)))) :=
      (follows_targets position ns).map fun _ => rfl
    dsimp only [id]
    split
    · exact Follows.bind (g := id) (.fail _ _ _) fun _ => htargets
    · exact htargets
  | expr e => exact (follows_expression e).map fun _ => rfl
  | result value position =>
    cases value with
    | single e => exact Follows.map (follows_expr e) fun _ => rfl
    | named xs => exact (follows_fields xs).map fun _ => rfl

theorem follows_statements (ss : List Statement) :
    Follows r id (statements ss) (statements (ss.map (Statement.renamed r.name))) := by
  induction ss with
  | nil => exact .pure _
  | cons st rest ih =>
    rw [List.map_cons, statements, statements]
    refine (follows_statement st).bind fun o => ?_
    cases o with
    | op o => exact ih.map fun _ => rfl
    | result v =>
      cases rest with
      | nil => exact .pure _
      | cons next rest =>
        rw [List.map_cons]
        dsimp only
        rw [next.position_renamed]
        exact .fail _ _ _

end Resolve

/-- Programs are the same under the new names, and what is wrong with them is in the same place. -/
theorem Respelling.compile (r : Respelling) (ss : List Statement) :
    (compileStatements (ss.map (Statement.renamed r.name))).mapError (·.position) =
      (compileStatements ss).mapError (·.position) := by
  have h := Resolve.follows_statements (r := r) ss .empty
  have hempty : Scope.empty.renamed r.name = .empty := rfl
  rw [hempty] at h
  unfold compileStatements StateT.run
  rw [List.length_map]
  cases hrun : Resolve.statements ss .empty with
  | error e =>
    rw [hrun] at h
    obtain ⟨e', he', hposition⟩ := h
    rw [he']
    exact congrArg Except.error hposition
  | ok p =>
    rw [hrun] at h
    replace h : Resolve.statements _ .empty = .ok _ := h
    rw [h]
    rfl

/-! ## The choice of names -/

/-- The names in a program. -/
def allNames (ss : List Statement) : List String := ss.flatMap Statement.names

/-- The declared names that may be chosen otherwise. -/
def variableNames (ss : List Statement) : List String :=
  (ss.flatMap Statement.declaredNames).filter PlainName

/-- The new names of the variables of a program, and the old ones for everything else. -/
def newName (ss : List Statement) (choice : String → String) (n : String) : String :=
  if n ∈ variableNames ss then choice n else n

/-- The program with new names for its variables. -/
def renamedProgram (ss : List Statement) (choice : String → String) : List Statement :=
  ss.map (Statement.renamed (newName ss choice))

/-- A choice of names for the variables of a program: plain ones that differ and are not in the program
yet, unless as the name of a variable that gets another one. -/
structure Respells (ss : List Statement) (choice : String → String) : Prop where
  injective : ∀ m ∈ variableNames ss, ∀ n ∈ variableNames ss, choice m = choice n → m = n
  plain : ∀ n ∈ variableNames ss, PlainName (choice n)
  fresh : ∀ n ∈ variableNames ss, choice n ∈ allNames ss → choice n ∈ variableNames ss

theorem mem_allNames_of_variable {ss : List Statement} {n : String} (h : n ∈ variableNames ss) :
    n ∈ allNames ss ∧ PlainName n := by
  obtain ⟨hdeclared, hplain⟩ := List.mem_filter.1 h
  obtain ⟨st, hst, hn⟩ := List.mem_flatMap.1 hdeclared
  refine ⟨List.mem_flatMap.2 ⟨st, hst, ?_⟩, of_decide_eq_true hplain⟩
  cases st with
  | declare kind m value position =>
    obtain rfl := List.mem_singleton.1 hn
    exact .head _
  | unpack ns c position => exact List.mem_append_left _ hn
  | reassign | expr | result => cases hn

namespace Respells

variable {ss : List Statement} {choice : String → String} (h : Respells ss choice)
include h

theorem newName_plain {n : String} (hn : PlainName n) : PlainName (newName ss choice n) := by
  unfold newName
  split
  · exact h.plain n ‹_›
  · exact hn

/-- Names of the program stay different. -/
theorem newName_injective {m n : String} (hm : m ∈ allNames ss) (hn : n ∈ allNames ss)
    (heq : newName ss choice m = newName ss choice n) : m = n := by
  unfold newName at heq
  by_cases hm' : m ∈ variableNames ss <;> by_cases hn' : n ∈ variableNames ss
  · rw [if_pos hm', if_pos hn'] at heq
    exact h.injective m hm' n hn' heq
  -- the new name of a variable is the old one of no other name
  · rw [if_pos hm', if_neg hn'] at heq
    exact absurd (heq ▸ h.fresh m hm' (heq ▸ hn)) hn'
  · rw [if_neg hm', if_pos hn'] at heq
    exact absurd (heq ▸ h.fresh n hn' (heq ▸ hm)) hm'
  · rwa [if_neg hm', if_neg hn'] at heq

/-- A choice of names is a part of a respelling: the plain names of the program go to different plain
names, and that can be continued to a permutation of all plain names. -/
theorem exists_respelling :
    ∃ r : Respelling, ∀ n ∈ allNames ss, r.name n = newName ss choice n := by
  let Used := { n : String // n ∈ (allNames ss).toFinset.filter PlainName }
  have used (n : Used) : n.1 ∈ allNames ss ∧ PlainName n.1 := by
    obtain ⟨hmem, hplain⟩ := Finset.mem_filter.1 n.2
    exact ⟨List.mem_toFinset.1 hmem, hplain⟩
  let old (n : Used) : { n // PlainName n } := ⟨n.1, (used n).2⟩
  let new (n : Used) : { n // PlainName n } := ⟨newName ss choice n.1, h.newName_plain (used n).2⟩
  have hold : Function.Injective old := fun m n heq => Subtype.ext (congrArg Subtype.val heq :)
  have hnew : Function.Injective new := fun m n heq =>
    Subtype.ext (h.newName_injective (used m).1 (used n).1 (congrArg Subtype.val heq :))
  obtain ⟨σ, hσ⟩ := Equiv.Perm.exists_extending_pair old new hold hnew
  refine ⟨⟨Equiv.Perm.ofSubtype σ, (Equiv.Perm.ofSubtype σ).injective, fun n => ?_⟩, fun n hn => ?_⟩
  · by_cases hn : PlainName n
    · rw [Equiv.Perm.ofSubtype_apply_of_mem σ hn]
      exact .inr ⟨hn, (σ ⟨n, hn⟩).2⟩
    · exact .inl (Equiv.Perm.ofSubtype_apply_of_not_mem σ hn)
  · by_cases hplain : PlainName n
    · have hmem : n ∈ (allNames ss).toFinset.filter PlainName :=
        Finset.mem_filter.2 ⟨List.mem_toFinset.2 hn, hplain⟩
      have heq := congrArg Subtype.val (hσ ⟨n, hmem⟩)
      exact (Equiv.Perm.ofSubtype_apply_of_mem σ hplain).trans heq
    · have hvariable : n ∉ variableNames ss := fun hv => hplain (mem_allNames_of_variable hv).2
      rw [newName, if_neg hvariable]
      exact Equiv.Perm.ofSubtype_apply_of_not_mem σ hplain

end Respells

/-- **The names of variables do not matter.** With other names for its variables a program is accepted
if it was accepted, and compiles to the same instructions with the same result and the same summary;
and otherwise it is rejected at the same position. -/
theorem compile_renamed {ss : List Statement} {choice : String → String} (h : Respells ss choice) :
    (compileStatements (renamedProgram ss choice)).mapError (·.position) =
      (compileStatements ss).mapError (·.position) := by
  obtain ⟨r, hr⟩ := h.exists_respelling
  have hsame : renamedProgram ss choice = ss.map (Statement.renamed r.name) :=
    List.map_congr_left fun st hst => Statement.renamed_congr fun n hn =>
      (hr n (List.mem_flatMap.2 ⟨st, hst, hn⟩)).symm
  rw [hsame, r.compile]

/-- Two variables exchange their names, and a record keeps its key: of
`a = close`, `var b = a`, `b := b + a` and `return {a: b}` there becomes
`b = close`, `var a = b`, `a := a + b` and `return {a: a}`. -/
theorem compile_renamed_exchanged :
    let ss : List Statement := [.declare .binding "a" (.name "close" 4) 0,
      .declare .persistent "b" (.name "a" 18) 10,
      .reassign "b" (.binary .add (.name "b" 25) (.name "a" 29)) 20,
      .result (.named [("a", .name "b" 42)]) 31]
    let choice := fun n => if n = "a" then "b" else "a"
    Respells ss choice ∧ variableNames ss = ["a", "b"] ∧
      renamedProgram ss choice = [.declare .binding "b" (.name "close" 4) 0,
        .declare .persistent "a" (.name "b" 18) 10,
        .reassign "a" (.binary .add (.name "a" 25) (.name "b" 29)) 20,
        .result (.named [("a", .name "a" 42)]) 31] ∧
      (compileStatements (renamedProgram ss choice)).mapError (·.position) =
        (compileStatements ss).mapError (·.position) := by
  intro ss choice
  have hvariables : variableNames ss = ["a", "b"] := by decide +kernel
  have h : Respells ss choice := by
    constructor <;> rw [hvariables] <;> decide +kernel
  refine ⟨h, hvariables, ?_, compile_renamed h⟩
  rw [renamedProgram]
  simp [newName, hvariables, ss, choice, Statement.renamed, Returned.renamed, Expr.renamed]

end BarScript
