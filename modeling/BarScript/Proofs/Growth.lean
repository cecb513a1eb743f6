import BarScript.Proofs.Resolution

/-!
# What resolution leaves alone

Resolution takes slots and handles and gives none back (`Resolve.Grows`). An expression takes
computed slots and handles only, and declares nothing (`Resolve.Keeps`).
-/

namespace BarScript

namespace Scope

/-- At least as many slots and handles are taken. -/
structure Le (s s' : Scope) : Prop where
  taken : ∀ b, s.taken b ≤ s'.taken b
  handles : s.handles ≤ s'.handles

/-- Only computed slots and handles have been taken. -/
structure Grew (s s' : Scope) : Prop extends Le s s' where
  names : s'.names = s.names
  others : ∀ b, b ≠ .computed → s'.taken b = s.taken b

theorem Le.refl (s : Scope) : s.Le s := ⟨fun _ => Nat.le_refl _, Nat.le_refl _⟩

theorem Le.trans {s s' s'' : Scope} (h : s.Le s') (h' : s'.Le s'') : s.Le s'' :=
  ⟨fun b => Nat.le_trans (h.taken b) (h'.taken b), Nat.le_trans h.handles h'.handles⟩

theorem Grew.refl (s : Scope) : s.Grew s := ⟨.refl s, rfl, fun _ _ => rfl⟩

theorem Grew.trans {s s' s'' : Scope} (h : s.Grew s') (h' : s'.Grew s'') : s.Grew s'' :=
  ⟨h.toLe.trans h'.toLe, h'.names.trans h.names,
    fun b hb => (h'.others b hb).trans (h.others b hb)⟩

theorem Grew.find? {s s' : Scope} (h : s.Grew s') (n : String) : s'.find? n = s.find? n := by
  rw [Scope.find?, h.names]
  rfl

theorem le_take (s : Scope) (b : Bank) : s.Le (s.take b) where
  taken b' := by
    rw [taken_take]
    split
    · rename_i h
      rw [h]
      exact Nat.le_succ _
    · exact Nat.le_refl _
  handles := Nat.le_of_eq (handles_take s b).symm

theorem grew_take (s : Scope) : s.Grew (s.take .computed) :=
  ⟨s.le_take _, rfl, fun b hb => by rw [taken_take, if_neg hb]⟩

theorem grew_handle (s : Scope) : s.Grew { s with handles := s.handles + 1 } :=
  ⟨⟨fun b => by cases b <;> exact Nat.le_refl _, Nat.le_succ _⟩, rfl, fun b _ => by cases b <;> rfl⟩

end Scope

namespace Resolve

variable {β γ : Type}

/-- The computation gives no slot and no handle back. -/
class Grows (m : ResolveM β) : Prop where
  le : ∀ s, Yields m s fun _ s' => s.Le s'

/-- The computation takes computed slots and handles only. -/
class Keeps (m : ResolveM β) : Prop where
  grew : ∀ s, Yields m s fun _ s' => s.Grew s'

section

variable {m m' : ResolveM β} {f : β → ResolveM γ}

instance [h : Keeps m] : Grows m := ⟨fun s => (h.grew s).mono fun _ _ h => h.toLe⟩

instance (x : β) : Keeps (pure x : ResolveM β) := ⟨fun s => .pure (.refl s)⟩

instance (position : Nat) (fault : ResolveFault) : Keeps (fail position fault : ResolveM β) :=
  ⟨fun _ => yields_fail⟩

instance Keeps.bind [hm : Keeps m] [hf : ∀ x, Keeps (f x)] : Keeps (m >>= f) :=
  ⟨fun s => .bind ((hm.grew s).mono fun x s₁ h => ((hf x).grew s₁).mono fun _ _ h' => h.trans h')⟩

instance [hm : Grows m] [hf : ∀ x, Grows (f x)] : Grows (m >>= f) :=
  ⟨fun s => .bind ((hm.le s).mono fun x s₁ h => ((hf x).le s₁).mono fun _ _ h' => h.trans h')⟩

instance {b : Prop} [Decidable b] [Keeps m] [Keeps m'] : Keeps (if b then m else m') := by
  split <;> infer_instance

instance {b : Prop} [Decidable b] [Grows m] [Grows m'] : Grows (if b then m else m') := by
  split <;> infer_instance

end

instance : Keeps (get : ResolveM Scope) := ⟨fun s => yields_get (.refl s)⟩

theorem Keeps.ofGet {f : Scope → ResolveM β} (h : ∀ s, Keeps (f s)) : Keeps (get >>= f) :=
  inferInstance

instance : Keeps (slot .computed) := ⟨fun s => yields_slot s.grew_take⟩

instance (b : Bank) : Grows (slot b) := ⟨fun s => yields_slot (s.le_take b)⟩

instance : Keeps handle := ⟨fun s => yields_handle s.grew_handle⟩

instance (n : Node) : Keeps (computed n) := by unfold computed; infer_instance

instance {ε : Type} (c : CallOf ε) (params : List String) (allowExtra : Bool) :
    Keeps (Resolve.bind c params allowExtra) := ⟨fun s => yields_bind fun _ => .refl s⟩

instance (c : Call) (count : ArgCount) : Keeps (checkPositional c count) :=
  ⟨fun s => yields_checkPositional fun _ => .refl s⟩

instance (c : Call) : Keeps (checkFunction c) := ⟨fun _ => yields_checkFunction⟩

instance {f : γ → ResolveM β} [hf : ∀ x, Keeps (f x)] (xs : List γ) : Keeps (each f xs) := by
  induction xs with
  | nil => exact inferInstanceAs (Keeps (pure _))
  | cons x xs ih => unfold each; infer_instance

instance (name : String) (position : Nat) (b : Binding) : Grows (declare name position b) :=
  ⟨fun s => yields_declare fun _ => ⟨fun b => by cases b <;> exact Nat.le_refl _, Nat.le_refl _⟩⟩

/-! ## Expressions -/

instance (n : String) (position : Nat) (offset : Option Node) : Keeps (name n position offset) := by
  have under : ∀ m : ResolveM Node, Keeps m → Keeps (do
      let value ← m
      match offset with
      | none => return value
      | some offset => return .read (← computed value) (some offset)) := by
    intro m _
    cases offset <;> infer_instance
  unfold name
  refine .ofGet fun s => ?_
  split
  · infer_instance
  · infer_instance
  split
  · infer_instance
  split
  · infer_instance
  dsimp only
  split
  · exact under (pure _) inferInstance
  split
  · exact under (pure _) inferInstance
  · split <;> exact under (fail _ _) inferInstance

mutual

theorem keeps_expr (e : Expr) : Keeps (expr e) := by
  cases e with
  | number l => rw [expr]; infer_instance
  | flag b => rw [expr]; infer_instance
  | na => rw [expr]; infer_instance
  | text t => rw [expr]; infer_instance
  | name n position => rw [expr]; infer_instance
  | history target offset position =>
    rw [expr]
    have := keeps_expr offset
    have := keeps_expr target
    cases target <;> infer_instance
  | unary op operand =>
    rw [expr]
    have := keeps_expr operand
    infer_instance
  | binary op left right =>
    rw [expr]
    have := keeps_expr left
    have := keeps_expr right
    infer_instance
  | ternary cond yes no =>
    rw [expr]
    have := keeps_expr cond
    have := keeps_expr yes
    have := keeps_expr no
    infer_instance
  | call c => rw [expr]; exact keeps_call c
termination_by 4 * sizeOf e

theorem keeps_source (e : Expr) : Keeps (source e) := by
  rw [source]
  have := keeps_expr e
  refine .ofGet fun s => ?_
  split <;> infer_instance
termination_by 4 * sizeOf e + 1

theorem keeps_argument (c : Call) (p : Param)
    (arg : Option { e : Expr // ∃ a ∈ c.args, a.value = e }) : Keeps (argument c p arg) := by
  have hexpr : ∀ e : { e : Expr // ∃ a ∈ c.args, a.value = e }, Keeps (expr e.1) := fun e =>
    have := sizeOf_arg_lt e.2
    keeps_expr e.1
  have hsource : ∀ e : { e : Expr // ∃ a ∈ c.args, a.value = e }, Keeps (source e.1) := fun e =>
    have := sizeOf_arg_lt e.2
    keeps_source e.1
  rw [argument.eq_def]
  split <;> infer_instance
termination_by 4 * sizeOf c

theorem keeps_study (c : Call) : Keeps (study c) := by
  rw [study]
  have := keeps_argument c
  split <;> infer_instance
termination_by 4 * sizeOf c + 1

theorem keeps_call (c : Call) : Keeps (call c) := by
  have hexpr : ∀ a : Arg { e : Expr // ∃ a ∈ c.args, a.value = e }, Keeps (expr a.value.1) :=
    fun a =>
    have := sizeOf_arg_lt a.value.2
    keeps_expr a.value.1
  have := keeps_study c
  rw [call]
  split
  · infer_instance
  dsimp only
  split <;> infer_instance
termination_by 4 * sizeOf c + 2

end

instance (e : Expr) : Keeps (expr e) := keeps_expr e

instance (e : Expr) : Keeps (source e) := keeps_source e

instance (c : Call) (p : Param) (arg : Option { e : Expr // ∃ a ∈ c.args, a.value = e }) :
    Keeps (argument c p arg) := keeps_argument c p arg

instance (c : Call) : Keeps (study c) := keeps_study c

instance (c : Call) : Keeps (call c) := keeps_call c

/-! ## Drawings -/

instance (c : Call) (count : ArgCount) : Keeps (positional c count) := by
  unfold positional
  infer_instance

theorem keeps_option (e : Expr) : Keeps (option e) := by
  rw [option.eq_def]
  cases e with
  | text t => exact inferInstanceAs (Keeps (pure _))
  | flag f => exact inferInstanceAs (Keeps (pure _))
  | name n position =>
    dsimp only
    split
    · split <;> infer_instance
    · infer_instance
  | call c =>
    dsimp only
    split
    · infer_instance
    split
    · refine @Keeps.bind _ _ _ _ inferInstance fun b => ?_
      split
      · infer_instance
      · rename_i base _
        have := sizeOf_arg_lt base.2
        have := keeps_option base.1
        refine @Keeps.bind _ _ _ _ inferInstance fun _ => ?_
        split <;> infer_instance
    · infer_instance
  | _ => infer_instance
termination_by sizeOf e

instance (e : Expr) : Keeps (option e) := keeps_option e

instance (xs : List (String × Expr)) : Keeps (options xs) := by
  unfold options
  infer_instance

section

variable (c : Call) (params : List String) (b : BoundArgs Expr) (i : Nat)

instance : Keeps (required c params b i) := by
  unfold required
  split <;> infer_instance

instance : Keeps (requiredValue c params b i) := by
  unfold requiredValue
  infer_instance

instance (what : String) (e : Expr) : Keeps (text what e) := by
  unfold text
  split <;> infer_instance

instance (default : String) : Keeps (title b i default) := by
  unfold title
  split <;> infer_instance

instance (what : String) : Keeps (text? b i what) := by
  unfold text?
  split <;> infer_instance

instance (e : Expr) : Keeps (plotTitle e) := by
  unfold plotTitle
  split
  · infer_instance
  · refine .ofGet fun s => ?_
    split <;> infer_instance
  · infer_instance

instance : Keeps (overlay? b i) := by
  unfold overlay?
  split <;> infer_instance

end

instance (c : Call) (char : Bool) : Keeps (plot c char) := by
  unfold plot
  infer_instance

instance (c : Call) (bar : Bool) : Keeps (candle c bar) := by
  unfold candle
  infer_instance

instance (c : Call) : Keeps (fill c) := by
  unfold fill
  infer_instance

instance (c : Call) : Keeps (hline c) := by
  unfold hline
  infer_instance

instance (c : Call) : Keeps (indicator c) := by
  unfold indicator
  infer_instance

theorem keeps_drawing? (c : Call) (m : ResolveM Drawing) (h : drawing? c = some m) : Keeps m := by
  unfold drawing? at h
  split at h <;> cases h <;> infer_instance

theorem keeps_boundPlot? (kind : DeclKind) (value : Expr) (m : ResolveM (Drawing × String))
    (h : boundPlot? kind value = some m) : Keeps m := by
  obtain ⟨c, char, -, -, -, rfl⟩ := boundPlot?_eq_some h
  infer_instance

/-! ## Statements -/

instance (name : String) (position : Nat) : Keeps (reassigned name position) := by
  unfold reassigned
  refine .ofGet fun s => ?_
  split <;> infer_instance

instance (position : Nat) (names : List String) : Grows (targets position names) := by
  induction names with
  | nil => exact inferInstanceAs (Grows (pure _))
  | cons name names ih => unfold targets; infer_instance

instance (xs : List (String × Expr)) : Keeps (fields xs) := by
  unfold fields
  infer_instance

instance (e : Expr) : Keeps (expression e) := by
  unfold expression
  dsimp only
  split
  · split
    · rename_i m hm
      have := keeps_drawing? _ m hm
      infer_instance
    · infer_instance
  · infer_instance

instance (kind : DeclKind) (name : String) (value : Expr) (position : Nat) :
    Grows (declaration kind name value position) := by
  unfold declaration
  split
  · rename_i m hm
    have := keeps_boundPlot? _ _ m hm
    infer_instance
  · cases kind <;> infer_instance

instance (st : Statement) : Grows (statement st) := by
  unfold statement
  split <;> infer_instance

theorem le_resolved {ss : List Statement} {s t : Scope} {os : List Op} {r : Option Result}
    (h : Resolved s ss os r t) : s.Le t := by
  induction h with
  | nil => exact .refl _
  | @op s _ _ st _ _ _ _ ho _ ih =>
    exact ((inferInstance : Grows (statement st)).le s _ _ ho).trans ih
  | @result s _ st _ hr => exact (inferInstance : Grows (statement st)).le s _ _ hr

/-! ## Names that are not declared -/

/-- The computation does not declare the name `v`. -/
class Spares (v : String) (m : ResolveM β) : Prop where
  find? : ∀ s, Yields m s fun _ s' => s'.find? v = s.find? v

section

variable {v : String}

instance {m : ResolveM β} [h : Keeps m] : Spares v m :=
  ⟨fun s => (h.grew s).mono fun _ _ hgrew => hgrew.find? v⟩

instance Spares.bind {m : ResolveM β} {f : β → ResolveM γ} [hm : Spares v m]
    [hf : ∀ x, Spares v (f x)] : Spares v (m >>= f) :=
  ⟨fun s => .bind ((hm.find? s).mono fun x s₁ h => ((hf x).find? s₁).mono fun _ _ h' => h'.trans h)⟩

instance {b : Prop} [Decidable b] {m m' : ResolveM β} [Spares v m] [Spares v m'] :
    Spares v (if b then m else m') := by
  split <;> infer_instance

instance (b : Bank) : Spares v (slot b) :=
  ⟨fun s => yields_slot (by rw [Scope.find?, Scope.names_take]; rfl)⟩

theorem spares_declare {name : String} (hname : name ≠ v) (position : Nat) (b : Binding) :
    Spares v (declare name position b) :=
  ⟨fun s => yields_declare fun _ => by simp [Scope.find?, List.find?_append, hname]⟩

theorem spares_targets {names : List String} (hnames : v ∉ names) (position : Nat) :
    Spares v (targets position names) := by
  induction names with
  | nil => exact inferInstanceAs (Spares v (pure _))
  | cons name names ih =>
    rw [List.mem_cons, not_or] at hnames
    have := spares_declare (Ne.symm hnames.1) position
    have := ih hnames.2
    unfold targets
    infer_instance

theorem spares_declaration {name : String} (hname : name ≠ v) (kind : DeclKind) (value : Expr)
    (position : Nat) : Spares v (declaration kind name value position) := by
  have := spares_declare hname position
  unfold declaration
  split
  · rename_i m hm
    have := keeps_boundPlot? _ _ m hm
    infer_instance
  · cases kind <;> infer_instance

end

end Resolve

end BarScript
