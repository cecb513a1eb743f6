import BarScript.Proofs.Marks
import BarScript.Proofs.Messages
import BarScript.Proofs.Spots

/-!
# Where resolution fails

A fault is at one of the marks of the statement that is resolved (`blames_statement`), and if the
fault is an unknown name or function, that is the name of the mark. Literals have no mark: what is
wrong with one of them is reported at the start of the text (`ResolveFault.Unplaced`). Resolution
goes from statement to statement and fails at the first one that is wrong (`statements_blame`).
-/

namespace BarScript

namespace ResolveFault

/-- What can be wrong with a literal, which has no place. -/
def Unplaced : ResolveFault → Prop
  | textAsValue => True
  | unreachable => True
  | notText _ => True
  | fillNeedsPlot => True
  | overlayNotFlag => True
  | _ => False

theorem Unplaced.unknown? {f : ResolveFault} (h : f.Unplaced) : f.unknown? = none := by
  cases f with
  | unknownName n => cases h
  | unknownFunction n => cases h
  | _ => rfl

end ResolveFault

/-- The fault is at one of the marks, or at the start of the text because of a literal. -/
def ResolveError.At (ms : List Mark) (e : ResolveError) : Prop :=
  (∃ m ∈ ms, m.position = e.position ∧ ∀ n ∈ e.fault.unknown?, m.name = some n) ∨
    e.position = 0 ∧ e.fault.Unplaced

namespace ResolveError.At

variable {ms ms' : List Mark} {e : ResolveError}

theorem mono (h : e.At ms) (hms : ms ⊆ ms') : e.At ms' :=
  h.imp_left fun ⟨m, hm, hplace⟩ => ⟨m, hms hm, hplace⟩

/-- A fault that calls no name unknown. -/
theorem of_mem {position : Nat} {name : Option String} {fault : ResolveFault}
    (h : ⟨position, name⟩ ∈ ms) (hfault : fault.unknown? = none) : At ms ⟨position, fault⟩ :=
  .inl ⟨_, h, rfl, fun n hn => by rw [hfault] at hn; cases hn⟩

/-- A fault about an expression that may be a literal. -/
theorem of_position {e : Expr} {fault : ResolveFault} (h : e.marks ⊆ ms)
    (hfault : fault.unknown? = none) (hliteral : fault.Unplaced) : At ms ⟨e.position, fault⟩ := by
  rcases e.position_marked with hzero | ⟨⟨p, name⟩, hm, hposition⟩
  · exact .inr ⟨hzero, hliteral⟩
  · exact hposition ▸ of_mem (h hm) hfault

end ResolveError.At

namespace Resolve

/-- Every fault is at one of the marks. -/
def Blames {β : Type} (ms : List Mark) (m : ResolveM β) : Prop :=
  ∀ s e, m s = .error e → e.At ms

namespace Blames

variable {β γ : Type} {ms ms' : List Mark} {m : ResolveM β} {f : β → ResolveM γ}

theorem mono (h : Blames ms m) (hms : ms ⊆ ms') : Blames ms' m :=
  fun s e he => (h s e he).mono hms

theorem pure (x : β) : Blames ms (pure x) := nofun

theorem get : Blames ms (MonadState.get : ResolveM Scope) := nofun

theorem fail {position : Nat} {fault : ResolveFault} (h : ResolveError.At ms ⟨position, fault⟩) :
    Blames ms (fail position fault : ResolveM β) := by
  rintro s e ⟨⟩
  exact h

theorem bind (hm : Blames ms m) (hf : ∀ s x s', m s = .ok (x, s') → Blames ms (f x)) :
    Blames ms (m >>= f) := by
  intro s e h
  replace h : (m s >>= fun p => f p.1 p.2) = .error e := h
  cases hrun : m s with
  | error e' =>
    rw [hrun] at h
    cases h
    exact hm s e hrun
  | ok p =>
    rw [hrun] at h
    exact hf s p.1 p.2 hrun p.2 e h

theorem andThen (hm : Blames ms m) (hf : ∀ x, Blames ms (f x)) : Blames ms (m >>= f) :=
  hm.bind fun _ x _ _ => hf x

theorem each {xs : List β} (hf : ∀ x ∈ xs, Blames ms (f x)) : Blames ms (each f xs) := by
  induction xs with
  | nil => exact .pure _
  | cons x xs ih =>
    obtain ⟨hx, hxs⟩ := List.forall_mem_cons.1 hf
    exact hx.andThen fun y => (ih hxs).andThen fun ys => .pure _

end Blames

variable {ms : List Mark}

theorem blames_slot (b : Bank) : Blames ms (slot b) := nofun

theorem blames_handle : Blames ms handle := nofun

theorem blames_computed (n : Node) : Blames ms (computed n) :=
  (blames_slot _).andThen fun _ => .pure _

theorem blames_declare {name : String} {position : Nat} {b : Binding}
    (h : ⟨position, none⟩ ∈ ms) : Blames ms (declare name position b) := by
  refine Blames.get.andThen fun s => ?_
  dsimp only
  split
  · exact .andThen (.fail (.of_mem h rfl)) fun _ => nofun
  · exact nofun

/-- A value at an offset. -/
theorem blames_offset {m : ResolveM Node} {offset : Option Node} (hm : Blames ms m) :
    Blames ms (do
      let value ← m
      match offset with
      | none => return value
      | some offset => return .read (← computed value) (some offset)) := by
  refine hm.andThen fun value => ?_
  cases offset with
  | none => exact .pure _
  | some o => exact (blames_computed _).andThen fun _ => .pure _

theorem blames_name {nm : String} {position : Nat} (h : ⟨position, some nm⟩ ∈ ms)
    (offset : Option Node) : Blames ms (name nm position offset) := by
  refine Blames.get.andThen fun s => ?_
  split
  · exact .pure _
  · exact .fail (.of_mem h rfl)
  split
  · exact .pure _
  split
  · exact .pure _
  dsimp only
  split
  · exact blames_offset (.pure _)
  split
  · exact blames_offset (.pure _)
  split
  · exact blames_offset (.fail (.of_mem h rfl))
  · refine blames_offset (.fail (.inl ⟨_, h, rfl, ?_⟩))
    rintro _ ⟨⟩
    rfl

/-! ## Arguments -/

end Resolve

namespace CallOf

variable {ε : Type} {c : CallOf ε} {params : List String} {allowExtra : Bool} {e : ResolveError}

/-- Arguments are matched one after the other, and what is wrong is wrong with one of them. -/
theorem bindFrom_error {as : List (Arg ε)} {next : Nat} {b : BoundArgs ε}
    (h : c.bindFrom params allowExtra as next b = .error e) :
    ∃ a ∈ as, e.position = a.position ∧ e.fault.unknown? = none := by
  induction as generalizing next b with
  | nil => cases h
  | cons a as ih =>
    cases hplace : c.place params allowExtra next a with
    | error e' =>
      rw [bindFrom, hplace] at h
      cases h
      refine ⟨a, .head _, ?_⟩
      unfold place at hplace
      split at hplace
      · split at hplace
        · cases hplace
        · split at hplace <;> cases hplace
          exact ⟨rfl, rfl⟩
      · split at hplace <;> cases hplace
        exact ⟨rfl, rfl⟩
    | ok pl =>
      cases hput : put params a b pl with
      | error e' =>
        rw [bindFrom, hplace] at h
        replace h : put params a b pl >>= _ = .error e := h
        rw [hput] at h
        cases h
        refine ⟨a, .head _, ?_⟩
        unfold put at hput
        split at hput <;> split at hput <;> cases hput <;> exact ⟨rfl, rfl⟩
      | ok b' =>
        rw [bindFrom, hplace] at h
        replace h : put params a b pl >>= _ = .error e := h
        rw [hput] at h
        obtain ⟨a', ha', hplaced⟩ := ih h
        exact ⟨a', .tail _ ha', hplaced⟩

end CallOf

namespace Resolve

variable {ms : List Mark}

theorem blames_bind {ε : Type} {c : CallOf ε} {params : List String} {allowExtra : Bool}
    (h : ∀ a ∈ c.args, ⟨a.position, none⟩ ∈ ms) : Blames ms (bind c params allowExtra) := by
  intro s e he
  unfold bind at he
  cases hb : c.bind params allowExtra with
  | ok b => rw [hb] at he; cases he
  | error e' =>
    rw [hb] at he
    cases he
    obtain ⟨a, ha, hposition, hfault⟩ := CallOf.bindFrom_error hb
    exact .inl ⟨_, h a ha, hposition.symm, fun n hn => by rw [hfault] at hn; cases hn⟩

/-- The arguments of a call, with where they come from, have the marks of the call. -/
theorem attach_marks (c : Call) : ∀ a ∈ c.attach.args, ⟨a.position, none⟩ ∈ c.marks := by
  intro a ha
  obtain ⟨a', -, rfl⟩ := List.mem_map.1 ha
  exact .tail _ (Arg.mem_allMarks a'.2).1

theorem value_marks {c : Call} (e : { e : Expr // ∃ a ∈ c.args, a.value = e }) :
    e.1.marks ⊆ c.marks := by
  obtain ⟨_, a, ha, rfl⟩ := e
  exact List.subset_cons_of_subset _ (Arg.mem_allMarks ha).2

theorem blames_checkPositional (c : Call) (count : ArgCount) :
    Blames c.marks (checkPositional c count) := by
  unfold checkPositional
  split
  · rename_i a ha
    exact .fail (.of_mem (.tail _ (Arg.mem_allMarks (List.mem_of_find?_eq_some ha)).1) rfl)
  · split
    · exact .fail (.of_mem (.head _) rfl)
    · exact .pure _

theorem blames_unknownFunction (c : Call) {β : Type} :
    Blames c.marks (fail c.position (.unknownFunction c.name) : ResolveM β) := by
  refine .fail (.inl ⟨_, .head _, rfl, ?_⟩)
  rintro _ ⟨⟩
  rfl

theorem blames_checkFunction (c : Call) : Blames c.marks (checkFunction c) := by
  unfold checkFunction
  split
  · exact .fail (.of_mem (.head _) rfl)
  split
  · exact .fail (.of_mem (.head _) rfl)
  · exact blames_unknownFunction c

/-! ## Expressions -/

mutual

theorem blames_expr (e : Expr) : Blames e.marks (expr e) := by
  cases e with
  | number l => rw [expr]; exact .pure _
  | flag b => rw [expr]; exact .pure _
  | na => rw [expr]; exact .pure _
  | text t => rw [expr]; exact .fail (.inr ⟨rfl, trivial⟩)
  | name nm position => rw [expr]; exact blames_name (.head _) none
  | history target offset position =>
    rw [expr]
    have hoffset : Blames (Expr.history target offset position).marks (expr offset) :=
      (blames_expr offset).mono fun m hm => by simp [Expr.marks, hm]
    refine hoffset.andThen fun o => ?_
    split
    · exact blames_name (by simp [Expr.marks]) _
    · have htarget : Blames (Expr.history target offset position).marks (expr target) :=
        (blames_expr target).mono fun m hm => by simp [Expr.marks, hm]
      exact htarget.andThen fun n => (blames_computed n).andThen fun _ => .pure _
  | unary op operand =>
    rw [expr]
    exact (blames_expr operand).andThen fun _ => .pure _
  | binary op left right =>
    rw [expr]
    refine ((blames_expr left).mono (List.subset_append_left _ _)).andThen fun l => ?_
    refine ((blames_expr right).mono (List.subset_append_right _ _)).andThen fun r => ?_
    exact .pure _
  | ternary cond yes no =>
    rw [expr]
    refine ((blames_expr cond).mono fun m hm => ?_).andThen fun c =>
      ((blames_expr yes).mono fun m hm => ?_).andThen fun y =>
      ((blames_expr no).mono fun m hm => ?_).andThen fun n => .pure _
    all_goals simp [Expr.marks, hm]
  | call c => rw [expr, Expr.marks_call]; exact blames_call c
termination_by 4 * sizeOf e

theorem blames_source (e : Expr) : Blames e.marks (source e) := by
  rw [source]
  refine Blames.get.andThen fun s => ?_
  split
  · exact .pure _
  · exact (blames_expr e).andThen fun n => blames_computed n
termination_by 4 * sizeOf e + 1

theorem blames_argument (c : Call) (p : Param)
    (arg : Option { e : Expr // ∃ a ∈ c.args, a.value = e }) :
    Blames c.marks (argument c p arg) := by
  have series (e : { e : Expr // ∃ a ∈ c.args, a.value = e }) : Blames c.marks (source e.1) :=
    have := sizeOf_arg_lt e.2
    (blames_source e.1).mono (value_marks e)
  have number (e : { e : Expr // ∃ a ∈ c.args, a.value = e }) : Blames c.marks (expr e.1) :=
    have := sizeOf_arg_lt e.2
    (blames_expr e.1).mono (value_marks e)
  rw [argument.eq_def]
  split
  · exact (series _).andThen fun _ => .pure _
  · exact (series _).andThen fun _ => .pure _
  · exact (number _).andThen fun _ => .pure _
  · exact (number _).andThen fun _ => .pure _
  · exact (number _).andThen fun _ => .pure _
  · exact .pure _
  · exact .pure _
  · exact .pure _
  · exact .fail (.of_mem (.head _) rfl)
  · exact .fail (.of_mem (.head _) rfl)
termination_by 4 * sizeOf c

theorem blames_study (c : Call) : Blames c.marks (study c) := by
  rw [study]
  split
  · exact blames_unknownFunction c
  · refine (blames_bind (attach_marks c)).andThen fun bound => ?_
    refine (Blames.each fun pa _ => blames_argument c pa.1 pa.2).andThen fun args => ?_
    split
    · exact blames_handle.andThen fun _ => .pure _
    · exact .pure _
termination_by 4 * sizeOf c + 1

theorem blames_call (c : Call) : Blames c.marks (call c) := by
  have positional : Blames c.marks
      (each (fun (a : Arg { e : Expr // ∃ a ∈ c.args, a.value = e }) => expr a.value.1)
        c.attach.args) := .each fun a _ =>
    have := sizeOf_arg_lt a.value.2
    (blames_expr a.value.1).mono (value_marks a.value)
  rw [call]
  split
  · refine (blames_study c).andThen fun k => ?_
    dsimp only
    split
    · exact .andThen (.fail (.of_mem (.head _) rfl)) fun _ => .pure _
    · exact .pure _
  dsimp only
  split
  · exact (blames_checkPositional c _).andThen fun _ => positional.andThen fun _ => .pure _
  split
  · exact (blames_checkPositional c _).andThen fun _ => positional.andThen fun _ => .pure _
  split
  · exact (blames_checkPositional c _).andThen fun _ => positional.andThen fun _ => .pure _
  · exact (blames_checkFunction c).andThen fun _ => .pure _
termination_by 4 * sizeOf c + 2

end

/-! ## Drawings -/

theorem blames_positional (c : Call) (count : ArgCount) :
    Blames c.marks (positional c count) :=
  (blames_checkPositional c count).andThen fun _ => .each fun a ha =>
    (blames_expr a.value).mono (value_marks ⟨a.value, a, ha, rfl⟩)

theorem blames_option (e : Expr) : Blames e.marks (option e) := by
  have number : Blames e.marks (do return OptionNode.number (← expr e)) :=
    (blames_expr e).andThen fun _ => .pure _
  rw [option.eq_def]
  cases e with
  | text t => exact .pure _
  | flag f => exact .pure _
  | name nm position =>
    dsimp only
    split
    · split
      · exact .pure _
      · exact .fail (.of_mem (.head _) rfl)
    · exact number
  | call c =>
    rw [Expr.marks_call] at number ⊢
    dsimp only
    split
    · exact (blames_positional c _).andThen fun _ => .pure _
    split
    · refine (blames_bind (attach_marks c)).andThen fun bound => ?_
      split
      · exact .fail (.of_mem (.head _) rfl)
      · rename_i base _
        have := sizeOf_arg_lt base.2
        refine ((blames_option base.1).mono (value_marks base)).andThen fun b => ?_
        split
        · rename_i alpha _
          exact ((blames_expr alpha.1).mono (value_marks alpha)).andThen fun _ => .pure _
        · exact .pure _
    · exact number
  | _ => exact number
termination_by sizeOf e
decreasing_by subst_vars; simp only [Expr.call.sizeOf_spec]; omega

/-- The call `c` has bound the arguments `b`. -/
theorem blames_bound {β : Type} {c : Call} {params : List String} {allowExtra : Bool}
    {f : BoundArgs Expr → ResolveM β}
    (hf : ∀ b : BoundArgs Expr, (∀ e, some e ∈ b.slots → e.marks ⊆ c.marks) →
      (∀ x ∈ b.extra, x.2.marks ⊆ c.marks) → Blames c.marks (f b)) :
    Blames c.marks (Resolve.bind c params allowExtra >>= f) := by
  refine (blames_bind fun a ha => .tail _ (Arg.mem_allMarks ha).1).bind fun s b s' hb => ?_
  obtain ⟨-, hslots, hextra⟩ := CallOf.bind_from (P := fun e => e.marks ⊆ c.marks)
    (fun a ha => value_marks ⟨a.value, a, ha, rfl⟩) (bind_eq_ok hb)
  exact hf b hslots hextra

theorem blames_text {what : String} {e : Expr} (h : e.marks ⊆ ms) : Blames ms (text what e) := by
  unfold text
  split
  · exact .pure _
  · exact .fail (.of_position h rfl trivial)

theorem blames_plotTitle {e : Expr} (h : e.marks ⊆ ms) : Blames ms (plotTitle e) := by
  unfold plotTitle
  split
  · exact .pure _
  · refine Blames.get.andThen fun s => ?_
    split
    · exact .pure _
    · exact .fail (.of_mem (h (.head _)) rfl)
  · exact .fail (.of_position h rfl trivial)

section

variable {c : Call} {b : BoundArgs Expr} (hslots : ∀ e, some e ∈ b.slots → e.marks ⊆ c.marks)
include hslots

theorem blames_required {β : Type} {params : List String} {i : Nat} {f : Expr → ResolveM β}
    (hf : ∀ e : Expr, e.marks ⊆ c.marks → Blames c.marks (f e)) :
    Blames c.marks (required c params b i >>= f) := by
  unfold required
  split
  · rename_i e he
    refine (Blames.pure e).bind fun _ _ _ hpure => ?_
    cases hpure
    exact hf e (hslots e (BoundArgs.mem_slots he))
  · refine .bind (.fail (.of_mem (.head _) rfl)) fun _ _ _ hfail => ?_
    cases hfail

theorem blames_requiredValue (params : List String) (i : Nat) :
    Blames c.marks (requiredValue c params b i) :=
  blames_required hslots fun e he => (blames_expr e).mono he

theorem blames_title (i : Nat) (default : String) : Blames c.marks (title b i default) := by
  unfold title
  split
  · rename_i e he
    exact blames_text (hslots e (BoundArgs.mem_slots he))
  · exact .pure _

theorem blames_text? (i : Nat) (what : String) : Blames c.marks (text? b i what) := by
  unfold text?
  split
  · rename_i e he
    exact (blames_text (hslots e (BoundArgs.mem_slots he))).andThen fun _ => .pure _
  · exact .pure _

theorem blames_overlay? (i : Nat) : Blames c.marks (overlay? b i) := by
  unfold overlay?
  split
  · exact .pure _
  · rename_i e _ he
    exact .fail (.of_position (hslots e (BoundArgs.mem_slots he)) rfl trivial)
  · exact .pure _

theorem blames_options (hextra : ∀ x ∈ b.extra, x.2.marks ⊆ c.marks) (params : List String)
    (first : Nat) : Blames c.marks (options (optionArgs params b first)) := by
  have hargs : ∀ x ∈ optionArgs params b first, x.2.marks ⊆ c.marks := by
    intro x hx
    rcases List.mem_append.1 hx with hx | hx
    · obtain ⟨⟨name, slot⟩, hmem, hx⟩ := List.mem_filterMap.1 hx
      obtain ⟨e, rfl, rfl⟩ := Option.map_eq_some_iff.1 hx
      exact hslots e (List.of_mem_zip (List.mem_of_mem_drop hmem)).2
    · exact hextra x hx
  exact .each fun x hx => ((blames_option x.2).mono (hargs x hx)).andThen fun _ => .pure _

end

theorem blames_plot (c : Call) (char : Bool) : Blames c.marks (plot c char) := by
  refine blames_bound fun b hslots hextra => ?_
  refine (blames_requiredValue hslots _ 0).andThen fun _ => ?_
  refine (blames_title hslots 1 _).andThen fun _ => ?_
  exact (blames_options hslots hextra _ _).andThen fun _ => .pure _

theorem blames_candle (c : Call) (bar : Bool) : Blames c.marks (candle c bar) := by
  refine blames_bound fun b hslots hextra => ?_
  refine (blames_requiredValue hslots _ 0).andThen fun _ => ?_
  refine (blames_requiredValue hslots _ 1).andThen fun _ => ?_
  refine (blames_requiredValue hslots _ 2).andThen fun _ => ?_
  refine (blames_requiredValue hslots _ 3).andThen fun _ => ?_
  refine (blames_title hslots 4 _).andThen fun _ => ?_
  exact (blames_options hslots hextra _ _).andThen fun _ => .pure _

theorem blames_fill (c : Call) : Blames c.marks (fill c) := by
  refine blames_bound fun b hslots hextra => ?_
  refine blames_required hslots fun e₁ h₁ => (blames_plotTitle h₁).andThen fun _ => ?_
  refine blames_required hslots fun e₂ h₂ => (blames_plotTitle h₂).andThen fun _ => ?_
  exact (blames_options hslots hextra _ _).andThen fun _ => .pure _

theorem blames_hline (c : Call) : Blames c.marks (hline c) := by
  refine blames_bound fun b hslots hextra => ?_
  refine (blames_requiredValue hslots _ 0).andThen fun _ => ?_
  refine (blames_title hslots 1 _).andThen fun _ => ?_
  exact (blames_options hslots hextra _ _).andThen fun _ => .pure _

theorem blames_indicator (c : Call) : Blames c.marks (indicator c) := by
  refine blames_bound fun b hslots hextra => ?_
  refine (blames_text? hslots 0 _).andThen fun _ => (blames_text? hslots 1 _).andThen fun _ => ?_
  exact (blames_overlay? hslots 2).andThen fun _ => .pure _

theorem blames_drawing {c : Call} {m : ResolveM Drawing} (h : drawing? c = some m) :
    Blames c.marks m := by
  unfold drawing? at h
  split at h <;> cases h
  · exact (blames_plot c false).andThen fun _ => .pure _
  · exact (blames_plot c true).andThen fun _ => .pure _
  · exact blames_candle c false
  · exact blames_candle c true
  · exact blames_fill c
  · exact blames_hline c
  · exact blames_indicator c

/-! ## Statements -/

theorem blames_declaration (kind : DeclKind) (nm : String) (value : Expr) (position : Nat) :
    Blames (⟨position, none⟩ :: value.marks) (declaration kind nm value position) := by
  unfold declaration
  split
  · rename_i m hm
    obtain ⟨c, char, -, rfl, -, rfl⟩ := boundPlot?_eq_some hm
    rw [Expr.marks_call]
    have hplot := (blames_plot c char).mono (List.subset_cons_self ⟨position, none⟩ _)
    exact hplot.andThen fun _ => (blames_declare (.head _)).andThen fun _ => .pure _
  · refine ((blames_expr value).mono (List.subset_cons_self _ _)).andThen fun v => ?_
    refine (blames_slot _).andThen fun id => (blames_declare (.head _)).andThen fun _ => ?_
    split <;> exact .pure _

theorem blames_reassigned {nm : String} {position : Nat} (h : ⟨position, none⟩ ∈ ms) :
    Blames ms (reassigned nm position) := by
  refine Blames.get.andThen fun s => ?_
  split
  · exact .fail (.of_mem h rfl)
  · exact .pure _
  · exact .fail (.of_mem h rfl)
  · exact .fail (.of_mem h rfl)

theorem blames_targets {position : Nat} (h : ⟨position, none⟩ ∈ ms) (names : List String) :
    Blames ms (targets position names) := by
  induction names with
  | nil => exact .pure _
  | cons name names ih =>
    exact (blames_slot _).andThen fun _ => (blames_declare h).andThen fun _ =>
      ih.andThen fun _ => .pure _

theorem blames_expression (e : Expr) : Blames e.marks (expression e) := by
  have plain : Blames e.marks (do return Op.eval (← expr e)) :=
    (blames_expr e).andThen fun _ => .pure _
  unfold expression
  dsimp only
  split
  · rename_i c
    split
    · rename_i m hm
      exact Expr.marks_call c ▸ (blames_drawing hm).andThen fun _ => .pure _
    · exact plain
  · exact plain

/-- **A statement** is blamed at one of its marks. -/
theorem blames_statement (st : Statement) : Blames st.marks (statement st) := by
  cases st with
  | declare kind nm value position =>
    exact (blames_declaration kind nm value position).andThen fun _ => .pure _
  | reassign nm value position =>
    refine (blames_reassigned (.head _)).andThen fun _ => ?_
    exact ((blames_expr value).mono (List.subset_cons_self _ _)).andThen fun _ => .pure _
  | unpack names c position =>
    refine ((blames_study c).mono (List.subset_cons_self _ _)).andThen fun k => ?_
    have rest : Blames (⟨position, none⟩ :: c.marks) (do
        let targets ← targets position names
        return Compiled.op (.unpack k targets)) :=
      (blames_targets (.head _) names).andThen fun _ => .pure _
    dsimp only
    split
    · exact .andThen (.fail (.of_mem (.head _) rfl)) fun _ => rest
    · exact rest
  | expr e => exact (blames_expression e).andThen fun _ => .pure _
  | result value position =>
    cases value with
    | single e =>
      exact ((blames_expr e).mono (List.subset_cons_self _ _)).andThen fun _ => .pure _
    | named xs =>
      refine .andThen (.each fun x hx => ?_) fun _ => .pure _
      refine ((blames_expr x.2).mono ?_).andThen fun _ => .pure _
      exact fun m hm => .tail _ (List.mem_flatMap.2 ⟨x, hx, hm⟩)

/-- What follows a `return` is blamed at its position. -/
theorem unreachable_at (st : Statement) : ResolveError.At st.marks ⟨st.position, .unreachable⟩ := by
  cases st with
  | expr e => exact .of_position (List.Subset.refl _) rfl trivial
  | _ => exact .of_mem (.head _) rfl

/-- One statement in front of others. -/
theorem statements_cons {st : Statement} {s s₁ : Scope} {o : Op} (rest : List Statement)
    (h : statement st s = .ok (.op o, s₁)) :
    statements (st :: rest) s =
      (statements rest s₁).map fun r => ((o :: r.1.1, r.1.2), r.2) := by
  rw [statements, bind_ok h]
  show (statements rest s₁ >>= fun r => _) = _
  cases statements rest s₁ <;> rfl

/-- **The statement that is blamed** is the first one that cannot be resolved behind the ones
before it. -/
theorem statements_blame {ss : List Statement} {s : Scope} {e : ResolveError}
    (h : statements ss s = .error e) :
    ∃ k st, ss[k]? = some st ∧ e.At st.marks ∧ (∀ j ≤ k, ∃ r, statements (ss.take j) s = .ok r) ∧
      statements (ss.take (k + 1)) s = .error e := by
  have nothing (s : Scope) : ∃ r, statements [] s = .ok r := ⟨_, rfl⟩
  induction ss generalizing s with
  | nil => cases h
  | cons st rest ih =>
    cases hst : statement st s with
    | error e' =>
      have hfails (rest : List Statement) : statements (st :: rest) s = .error e' := by
        rw [statements]
        show (statement st s >>= fun r => _) = _
        rw [hst]
        rfl
      obtain rfl : e' = e := Except.error.inj ((hfails rest).symm.trans h)
      refine ⟨0, st, rfl, blames_statement st s e' hst, fun j hj => ?_, hfails []⟩
      obtain rfl := Nat.le_zero.1 hj
      exact nothing s
    | ok r =>
      obtain ⟨o | r, s₁⟩ := r
      · have hcons := fun rest => statements_cons rest hst
        rw [hcons rest] at h
        cases hrest : statements rest s₁ with
        | ok r => rw [hrest] at h; cases h
        | error e' =>
          rw [hrest] at h
          cases h
          obtain ⟨k, st', hk, hplace, hbefore, hthere⟩ := ih hrest
          refine ⟨k + 1, st', hk, hplace, fun j hj => ?_, ?_⟩
          · cases j with
            | zero => exact nothing s
            | succ j =>
              obtain ⟨r, hr⟩ := hbefore j (Nat.le_of_succ_le_succ hj)
              exact ⟨_, by rw [List.take_succ_cons, hcons, hr]; rfl⟩
          · rw [List.take_succ_cons, hcons, hthere]
            rfl
      · cases rest with
        | nil => rw [statements, bind_ok hst] at h; cases h
        | cons next rest =>
          have hfails (rest : List Statement) :
              statements (st :: next :: rest) s = .error ⟨next.position, .unreachable⟩ := by
            rw [statements, bind_ok hst]
            rfl
          obtain rfl := Except.error.inj ((hfails rest).symm.trans h)
          refine ⟨1, next, rfl, unreachable_at next, fun j hj => ?_, hfails []⟩
          rcases Nat.le_one_iff_eq_zero_or_eq_one.1 hj with rfl | rfl
          · exact nothing s
          · exact ⟨_, by rw [List.take_succ_cons, statements, bind_ok hst]; rfl⟩

end Resolve

/-- The statement number `k` is the first one that is rejected, with the error `e`: the ones before
it compile on their own. -/
structure FirstRejected (ss : List Statement) (k : Nat) (e : ResolveError) : Prop where
  before : ∀ j ≤ k, ∃ p, compileStatements (ss.take j) = .ok p
  rejected : compileStatements (ss.take (k + 1)) = .error e

/-- **A fault of a script** is at a mark of the first statement that is rejected. -/
theorem compileStatements_blame {ss : List Statement} {e : ResolveError}
    (h : compileStatements ss = .error e) :
    ∃ k st, ss[k]? = some st ∧ e.At st.marks ∧ FirstRejected ss k e := by
  have fails {ss : List Statement} : compileStatements ss = .error e ↔
      Resolve.statements ss .empty = .error e := by
    unfold compileStatements StateT.run
    cases Resolve.statements ss .empty <;> simp [bind, Except.bind, pure, Except.pure]
  obtain ⟨k, st, hk, hplace, hbefore, hthere⟩ := Resolve.statements_blame (fails.1 h)
  refine ⟨k, st, hk, hplace, fun j hj => ?_, fails.2 hthere⟩
  obtain ⟨r, hr⟩ := hbefore j hj
  unfold compileStatements StateT.run
  rw [hr]
  exact ⟨_, rfl⟩

end BarScript
