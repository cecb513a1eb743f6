import BarScript.Proofs.Arguments
import BarScript.Proofs.Resolution

/-!
# Offsets and argument lists of a compiled script

`Program.spots` lists the places of a program where a number or a list could be out of range: the
offsets of history accesses and the argument lists of calls. Resolution leaves sound spots only
(`compileStatements_spots`): every offset is what an offset that stands in the script has become
(`Expr.HasOffset`), every indicator call has an argument for each of its parameters, of which there
are three at most (`StudyCallOf.Fits.length_le`), and every mathematical function has as many
arguments as it takes.
-/

namespace BarScript

/-- A place where something could be out of range. -/
inductive Spot where
  /-- The offset of a history access. -/
  | offset (n : Node)
  | call (k : StudyCall)
  | math (f : MathFn) (args : List Node)

mutual

/-- The spots of an expression. -/
def Node.spots : Node → List Spot
  | .number _ => []
  | .flag _ => []
  | .na => []
  | .read source offset => Node.offsetSpots offset ++ source.spots
  | .clock _ offset => Node.offsetSpots offset
  | .barIndex => []
  | .unary _ operand => operand.spots
  | .binary _ left right => left.spots ++ right.spots
  | .ternary cond yes no => cond.spots ++ (yes.spots ++ no.spots)
  | .study ⟨study, args, handle⟩ => Bound.allSpots args ++ [.call ⟨study, args, handle⟩]
  | .math f args => Node.allSpots args ++ [.math f args]
  | .isNa operand => operand.spots
  | .nz operand replacement => operand.spots ++ replacement.spots

/-- The spots of an offset, which is one itself. -/
def Node.offsetSpots : Option Node → List Spot
  | none => []
  | some n => n.spots ++ [.offset n]

def Source.spots : Source → List Spot
  | .price _ => []
  | .slot _ _ => []
  | .computed _ value => value.spots

def Bound.allSpots : List Bound → List Spot
  | [] => []
  | b :: bs => b.spots ++ Bound.allSpots bs

def Bound.spots : Bound → List Spot
  | .series s => s.spots
  | .number n => n.spots
  | .absent => []

def Node.allSpots : List Node → List Spot
  | [] => []
  | n :: ns => n.spots ++ Node.allSpots ns

end

theorem Node.allSpots_eq (ns : List Node) : Node.allSpots ns = ns.flatMap Node.spots := by
  induction ns with
  | nil => rfl
  | cons n ns ih => simp [Node.allSpots, ih]

theorem Bound.allSpots_eq (bs : List Bound) : Bound.allSpots bs = bs.flatMap Bound.spots := by
  induction bs with
  | nil => rfl
  | cons b bs ih => simp [Bound.allSpots, ih]

def StudyCallOf.spots (k : StudyCall) : List Spot := Bound.allSpots k.args ++ [.call k]

def OptionNode.spots : OptionNode → List Spot
  | text _ => []
  | flag _ => []
  | number n => n.spots
  | rgb channels => Node.allSpots channels
  | newColor base alpha => base.spots ++ alpha.elim [] Node.spots

def optionSpots (options : OptionNodes) : List Spot := options.flatMap (·.2.spots)

def Drawing.spots : Drawing → List Spot
  | plot value _ options _ => value.spots ++ optionSpots options
  | candle opening high low close _ options _ =>
    opening.spots ++ (high.spots ++ (low.spots ++ (close.spots ++ optionSpots options)))
  | fill _ _ options => optionSpots options
  | hline price _ options => price.spots ++ optionSpots options
  | indicator _ _ _ => []

def Op.spots : Op → List Spot
  | set _ _ value => value.spots
  | init _ _ value => value.spots
  | unpack call _ => call.spots
  | eval n => n.spots
  | draw d => d.spots

def Result.spots : Result → List Spot
  | single n => n.spots
  | named fields => fields.flatMap (·.2.spots)

/-- The spots of a program. -/
def Program.spots (p : Program) : List Spot :=
  p.ops.flatMap Op.spots ++ p.result.elim [] Result.spots

/-! ## What a spot has to be -/

/-- What an argument has to be for a parameter. -/
def ParamKind.Admits : ParamKind → Bound → Prop
  | series, .series _ => True
  | number, .number _ => True
  | optionalSeries, .series _ => True
  | optionalSeries, .absent => True
  | optionalNumber, .number _ => True
  | optionalNumber, .absent => True
  | default _, .number _ => True
  | _, _ => False

/-- A call has an argument for each of its parameters. -/
def StudyCallOf.Fits (k : StudyCall) : Prop :=
  List.Forall₂ (fun p b => p.kind.Admits b) k.study.params k.args

theorem StudyCallOf.Fits.length_eq {k : StudyCall} (h : k.Fits) :
    k.args.length = k.study.params.length :=
  (List.Forall₂.length_eq h).symm

/-- No call has more than three arguments. -/
theorem StudyCallOf.Fits.length_le {k : StudyCall} (h : k.Fits) : k.args.length ≤ 3 := by
  have hparams : ∀ s : Study, s.params.length ≤ 3 := fun s => by cases s <;> decide
  exact h.length_eq ▸ hparams k.study

/-- `e.HasOffset o`: the expression `o` is the offset of a history access in `e`. -/
inductive Expr.HasOffset : Expr → Expr → Prop
  | here (target offset : Expr) (position : Nat) :
      HasOffset (.history target offset position) offset
  | target {target offset o : Expr} {position : Nat} (h : HasOffset target o) :
      HasOffset (.history target offset position) o
  | offset {target offset o : Expr} {position : Nat} (h : HasOffset offset o) :
      HasOffset (.history target offset position) o
  | unary {op : UnaryOp} {operand o : Expr} (h : HasOffset operand o) :
      HasOffset (.unary op operand) o
  | left {op : BinaryOp} {left right o : Expr} (h : HasOffset left o) :
      HasOffset (.binary op left right) o
  | right {op : BinaryOp} {left right o : Expr} (h : HasOffset right o) :
      HasOffset (.binary op left right) o
  | cond {cond yes no o : Expr} (h : HasOffset cond o) : HasOffset (.ternary cond yes no) o
  | yes {cond yes no o : Expr} (h : HasOffset yes o) : HasOffset (.ternary cond yes no) o
  | no {cond yes no o : Expr} (h : HasOffset no o) : HasOffset (.ternary cond yes no) o
  | arg {c : Call} {a : Arg Expr} {o : Expr} (ha : a ∈ c.args) (h : HasOffset a.value o) :
      HasOffset (.call c) o

section

variable {o : Expr}

@[simp] theorem Expr.not_hasOffset_number (l : Literal) : ¬ HasOffset (.number l) o := nofun

@[simp] theorem Expr.not_hasOffset_text (t : String) : ¬ HasOffset (.text t) o := nofun

@[simp] theorem Expr.not_hasOffset_name (nm : String) (position : Nat) :
    ¬ HasOffset (.name nm position) o := nofun

@[simp] theorem Expr.hasOffset_history (target offset : Expr) (position : Nat) :
    HasOffset (.history target offset position) o ↔
      o = offset ∨ target.HasOffset o ∨ offset.HasOffset o := by
  constructor
  · rintro (_ | _)
    · exact .inl rfl
    · exact .inr (.inl ‹_›)
    · exact .inr (.inr ‹_›)
  · rintro (rfl | h | h)
    · exact .here target o position
    · exact .target h
    · exact .offset h

@[simp] theorem Expr.hasOffset_call (c : Call) :
    HasOffset (.call c) o ↔ ∃ a ∈ c.args, a.value.HasOffset o := by
  constructor
  · intro h
    cases h with
    | arg ha h => exact ⟨_, ha, h⟩
  · rintro ⟨a, ha, h⟩
    exact .arg ha h

end

/-- Every offset in the expression is in `E`. -/
def Expr.OffsetsIn (E : Expr → Prop) (e : Expr) : Prop := ∀ o, e.HasOffset o → E o

theorem Expr.OffsetsIn.args {E : Expr → Prop} {c : Call} (h : (Expr.call c).OffsetsIn E) :
    ∀ a ∈ c.args, a.value.OffsetsIn E :=
  fun _ ha o ho => h o (.arg ha ho)

theorem Expr.OffsetsIn.attached {E : Expr → Prop} {c : Call}
    (hc : ∀ a ∈ c.args, a.value.OffsetsIn E) (e : { e : Expr // ∃ a ∈ c.args, a.value = e }) :
    e.1.OffsetsIn E := by
  obtain ⟨_, a, ha, rfl⟩ := e
  exact hc a ha

/-- The expressions of a statement. -/
def Statement.exprs : Statement → List Expr
  | declare _ _ value _ => [value]
  | reassign _ value _ => [value]
  | unpack _ call _ => [.call call]
  | expr e => [e]
  | result (.single e) _ => [e]
  | result (.named fields) _ => fields.map (·.2)

/-- The offset stands in one of the expressions of a statement. -/
def Statement.HasOffset (st : Statement) (o : Expr) : Prop := ∃ e ∈ st.exprs, e.HasOffset o

/-- A spot is in range, and an offset is what an expression in `E` has become. -/
def Spot.Sound (E : Expr → Prop) : Spot → Prop
  | offset n => ∃ e s s', E e ∧ Resolve.expr e s = .ok (n, s')
  | call k => k.Fits
  | math f args => f.argCount.admits args.length = true

/-! ## Bound arguments -/

/-- Elements that are related to others have what every related element has. -/
theorem forall_of_forall₂ {β γ : Type} {R : β → γ → Prop} {P : β → Prop} {xs : List β}
    {ys : List γ} (h : List.Forall₂ R xs ys) (hP : ∀ x y, R x y → P x) : ∀ x ∈ xs, P x := by
  induction h with
  | nil => exact List.forall_mem_nil _
  | cons hxy _ ih => exact List.forall_mem_cons.2 ⟨hP _ _ hxy, ih⟩

/-- What is bound by a call are its arguments, and every parameter has a slot. -/
theorem CallOf.bind_from {ε : Type} {c : CallOf ε} {params : List String} {allowExtra : Bool}
    {b : BoundArgs ε} {P : ε → Prop} (hargs : ∀ a ∈ c.args, P a.value)
    (h : c.bind params allowExtra = .ok b) :
    b.slots.length = params.length ∧ (∀ e, some e ∈ b.slots → P e) ∧ ∀ x ∈ b.extra, P x.2 := by
  have hsame : List.Forall₂ (Arg.Rel fun x _ => P x) c.args c.args :=
    List.forall₂_same.2 fun a ha => ⟨rfl, hargs a ha⟩
  obtain ⟨b', -, hrel, hlength⟩ :=
    bindFrom_ok (binds_full params) hsame c ⟨start_rel params, by simp⟩ h
  refine ⟨hlength, fun e he => ?_, ?_⟩
  · have hsome : ∀ o ∈ b.slots, ∀ e, o = some e → P e :=
      forall_of_forall₂ hrel.slots fun o o' ho e he => by
        subst he
        cases ho with
        | some hP => exact hP
    exact hsome _ he e rfl
  · exact forall_of_forall₂ hrel.extra fun _ _ h => h.2

theorem BoundArgs.mem_slots {ε : Type} {b : BoundArgs ε} {i : Nat} {e : ε}
    (h : b.slot i = some e) : some e ∈ b.slots :=
  List.mem_of_getElem? (Option.join_eq_some_iff.1 h)

namespace Resolve

/-! ## Resolution leaves sound spots -/

section

variable {β γ : Type}

theorem bind_eq_ok {ε : Type} {c : CallOf ε} {params : List String} {allowExtra : Bool}
    {b : BoundArgs ε} {s s' : Scope} (h : Resolve.bind c params allowExtra s = .ok (b, s')) :
    c.bind params allowExtra = .ok b := by
  unfold Resolve.bind at h
  cases hb : c.bind params allowExtra with
  | error e => rw [hb] at h; cases h
  | ok b' => rw [hb] at h; cases h; rfl

theorem yields_each_forall₂ {R : β → γ → Prop} {f : β → ResolveM γ} {xs : List β}
    (hf : ∀ x ∈ xs, ∀ s, Yields (f x) s fun y _ => R x y) (s : Scope) :
    Yields (each f xs) s fun ys _ => List.Forall₂ R xs ys := by
  induction xs generalizing s with
  | nil => exact .pure .nil
  | cons x xs ih =>
    refine .bind ((hf x (.head _) s).mono fun y s₁ hy => ?_)
    exact .bind ((ih (fun z hz => hf z (.tail _ hz)) s₁).mono fun ys _ hys => .pure (.cons hy hys))

/-- The spots of the results are sound. -/
def Spotted (E : Expr → Prop) (spots : β → List Spot) (m : ResolveM β) : Prop :=
  ∀ s : Scope, Yields m s fun x _ => ∀ pl ∈ spots x, pl.Sound E

namespace Spotted

variable {E : Expr → Prop} {r : β → List Spot} {q : γ → List Spot}
variable {m : ResolveM β} {f : β → ResolveM γ}

theorem pure {x : β} (h : ∀ pl ∈ r x, pl.Sound E) : Spotted E r (pure x) := fun _ => .pure h

/-- There are no spots. -/
theorem none {x : β} (h : r x = []) : Spotted E r (Pure.pure x) := pure (by simp [h])

theorem fail (position : Nat) (fault : ResolveFault) : Spotted E r (fail position fault) :=
  fun _ => yields_fail

theorem bind (hm : Spotted E r m) (hf : ∀ x, (∀ pl ∈ r x, pl.Sound E) → Spotted E q (f x)) :
    Spotted E q (m >>= f) :=
  fun s => .bind fun x s₁ hx => hf x (hm s x s₁ hx) s₁

/-- What comes first has no spots. -/
theorem after (hf : ∀ x, Spotted E q (f x)) : Spotted E q (m >>= f) :=
  fun _ => .bind fun x s₁ _ => hf x s₁

theorem map (hm : Spotted E r m) {g : β → γ} (hg : ∀ x pl, pl ∈ q (g x) → pl ∈ r x) :
    Spotted E q (do let x ← m; Pure.pure (g x)) :=
  hm.bind fun x hx => pure fun pl hpl => hx pl (hg x pl hpl)

theorem each_length {f : β → ResolveM γ} {xs : List β} (hf : ∀ x ∈ xs, Spotted E q (f x))
    (s : Scope) : Yields (each f xs) s fun ys _ =>
      ys.length = xs.length ∧ ∀ pl ∈ ys.flatMap q, pl.Sound E := by
  refine (yields_each_forall₂ hf s).mono fun ys _ hys => ⟨hys.length_eq.symm, fun pl hpl => ?_⟩
  obtain ⟨y, hy, hpl⟩ := List.mem_flatMap.1 hpl
  exact forall_of_forall₂ hys.flip (fun _ _ h => h) y hy pl hpl

theorem each {f : β → ResolveM γ} {xs : List β} (hf : ∀ x ∈ xs, Spotted E q (f x)) :
    Spotted E (fun ys => ys.flatMap q) (each f xs) :=
  fun s => (each_length hf s).mono fun _ _ h => h.2

end Spotted

end

variable {E : Expr → Prop}

theorem spotted_computed {n : Node} (h : ∀ pl ∈ n.spots, pl.Sound E) :
    Spotted E Source.spots (computed n) :=
  .after fun _ => .pure h

/-- The spots of a reading at an offset. -/
theorem sound_read {offset : Option Node} {src : Source}
    (ho : ∀ pl ∈ Node.offsetSpots offset, pl.Sound E) (hsrc : ∀ pl ∈ src.spots, pl.Sound E) :
    ∀ pl ∈ (Node.read src offset).spots, pl.Sound E :=
  List.forall_mem_append.2 ⟨ho, hsrc⟩

/-- A value that is no series, read at an offset. -/
theorem spotted_offset {m : ResolveM Node} {offset : Option Node}
    (ho : ∀ pl ∈ Node.offsetSpots offset, pl.Sound E) (hm : Spotted E Node.spots m) :
    Spotted E Node.spots (do
      let value ← m
      match offset with
      | none => return value
      | some offset => return .read (← computed value) (some offset)) := by
  refine hm.bind fun n hn => ?_
  cases offset with
  | none => exact .pure hn
  | some o => exact (spotted_computed hn).bind fun src hsrc => .pure (sound_read ho hsrc)

/-- The true range, as a name, has its one argument. -/
theorem sound_trueRange : ∀ pl ∈
    (Node.study ⟨.tr, [.number (.number (.ofNat 0))], none⟩).spots, pl.Sound E := by
  intro pl hpl
  obtain rfl : pl = .call ⟨.tr, [.number (.number (.ofNat 0))], none⟩ := by
    simpa [Node.spots, Bound.allSpots, Bound.spots] using hpl
  exact List.Forall₂.cons trivial .nil

theorem spotted_name (nm : String) (position : Nat) {offset : Option Node}
    (ho : ∀ pl ∈ Node.offsetSpots offset, pl.Sound E) :
    Spotted E Node.spots (name nm position offset) := by
  intro s
  refine .bind (yields_get ?_)
  split
  · exact .pure (sound_read ho (List.forall_mem_nil _))
  · exact yields_fail
  split
  · exact .pure (sound_read ho (List.forall_mem_nil _))
  split
  · exact .pure ho
  dsimp only
  split
  · exact spotted_offset ho (.none rfl) s
  split
  · exact spotted_offset ho (.pure sound_trueRange) s
  split <;> exact .bind yields_fail

mutual

theorem spotted_expr (e : Expr) (he : e.OffsetsIn E) : Spotted E Node.spots (expr e) := by
  cases e with
  | number l => rw [expr]; exact .none rfl
  | flag b => rw [expr]; exact .none rfl
  | na => rw [expr]; exact .none rfl
  | text t => rw [expr]; exact .fail _ _
  | name nm position => rw [expr]; exact spotted_name nm position nofun
  | history target offset position =>
    rw [expr]
    intro s
    refine .bind fun o s₁ ho => ?_
    have hinner := spotted_expr offset (fun o h => he o (.offset h)) s o s₁ ho
    -- the new spot is what the offset of this access has become
    have hspots : ∀ pl ∈ Node.offsetSpots (some o), pl.Sound E :=
      List.forall_mem_append.2 ⟨hinner, List.forall_mem_singleton.2
        ⟨offset, s, s₁, he offset (.here target offset position), ho⟩⟩
    dsimp only
    split
    · exact spotted_name _ _ hspots s₁
    · exact ((spotted_expr target fun o h => he o (.target h)).bind fun n hn =>
        (spotted_computed hn).bind fun src hsrc => .pure (sound_read hspots hsrc)) s₁
  | unary op operand =>
    rw [expr]
    exact (spotted_expr operand fun o h => he o (.unary h)).map fun _ _ hpl => hpl
  | binary op left right =>
    rw [expr]
    refine (spotted_expr left fun o h => he o (.left h)).bind fun l hl => ?_
    refine (spotted_expr right fun o h => he o (.right h)).bind fun r hr => .pure ?_
    exact List.forall_mem_append.2 ⟨hl, hr⟩
  | ternary cond yes no =>
    rw [expr]
    refine (spotted_expr cond fun o h => he o (.cond h)).bind fun c hc => ?_
    refine (spotted_expr yes fun o h => he o (.yes h)).bind fun y hy => ?_
    refine (spotted_expr no fun o h => he o (.no h)).bind fun n hn => .pure ?_
    exact List.forall_mem_append.2 ⟨hc, List.forall_mem_append.2 ⟨hy, hn⟩⟩
  | call c => rw [expr]; exact spotted_call c he.args
termination_by 4 * sizeOf e

theorem spotted_source (e : Expr) (he : e.OffsetsIn E) :
    Spotted E Source.spots (source e) := by
  rw [source]
  intro s
  refine .bind (yields_get ?_)
  split
  · rename_i src hsrc
    refine .pure ?_
    unfold namedSource? at hsrc
    split at hsrc
    · split at hsrc
      · cases hsrc
        exact nofun
      · cases hsrc
      · obtain ⟨p, -, rfl⟩ := Option.map_eq_some_iff.1 hsrc
        exact nofun
    · cases hsrc
  · exact ((spotted_expr e he).bind fun n hn => spotted_computed hn) s
termination_by 4 * sizeOf e + 1

/-- An argument is what its parameter asks for. -/
theorem spotted_argument (c : Call) (p : Param)
    (arg : Option { e : Expr // ∃ a ∈ c.args, a.value = e })
    (hc : ∀ a ∈ c.args, a.value.OffsetsIn E) (s : Scope) :
    Yields (argument c p arg) s fun b _ => p.kind.Admits b ∧ ∀ pl ∈ b.spots, pl.Sound E := by
  have series : ∀ e : { e : Expr // ∃ a ∈ c.args, a.value = e },
      Yields (source e.1) s fun src _ => ∀ pl ∈ src.spots, pl.Sound E := fun e =>
    have := sizeOf_arg_lt e.2
    spotted_source e.1 (.attached hc e) s
  have number : ∀ e : { e : Expr // ∃ a ∈ c.args, a.value = e },
      Yields (expr e.1) s fun n _ => ∀ pl ∈ n.spots, pl.Sound E := fun e =>
    have := sizeOf_arg_lt e.2
    spotted_expr e.1 (.attached hc e) s
  rw [argument.eq_def]
  split <;> rename_i hkind <;> rw [hkind]
  · exact .bind ((series _).mono fun _ _ h => .pure ⟨trivial, h⟩)
  · exact .bind ((series _).mono fun _ _ h => .pure ⟨trivial, h⟩)
  · exact .bind ((number _).mono fun _ _ h => .pure ⟨trivial, h⟩)
  · exact .bind ((number _).mono fun _ _ h => .pure ⟨trivial, h⟩)
  · exact .bind ((number _).mono fun _ _ h => .pure ⟨trivial, h⟩)
  · exact .pure ⟨trivial, nofun⟩
  · exact .pure ⟨trivial, nofun⟩
  · exact .pure ⟨trivial, nofun⟩
  · exact yields_fail
  · exact yields_fail
termination_by 4 * sizeOf c

theorem spotted_study (c : Call) (hc : ∀ a ∈ c.args, a.value.OffsetsIn E) :
    Spotted E StudyCallOf.spots (study c) := by
  rw [study]
  split
  · exact .fail _ _
  · rename_i st _
    intro s
    refine .bind fun bound s₁ hbound => ?_
    have hlength : bound.slots.length = st.params.length := by
      rw [(CallOf.bind_from (P := fun _ => True) (fun _ _ => trivial) (bind_eq_ok hbound)).1,
        List.length_map]
    refine .bind ((yields_each_forall₂ (R := fun (pa : Param × _) b =>
      pa.1.kind.Admits b ∧ ∀ pl ∈ b.spots, pl.Sound E)
      (fun pa _ => spotted_argument c pa.1 pa.2 hc) s₁).mono fun args s₂ hargs => ?_)
    have hsound : ∀ pl ∈ Bound.allSpots args, pl.Sound E := fun pl hpl => by
      rw [Bound.allSpots_eq] at hpl
      obtain ⟨b, hb, hpl⟩ := List.mem_flatMap.1 hpl
      exact forall_of_forall₂ hargs.flip (fun _ _ h => h.2) b hb pl hpl
    have hadmits : List.Forall₂ (fun (p : Param) b => p.kind.Admits b)
        ((st.params.zip bound.slots).map Prod.fst) args :=
      List.forall₂_map_left_iff.2 (hargs.imp fun _ _ h => h.1)
    rw [List.map_fst_zip (Nat.le_of_eq hlength.symm)] at hadmits
    have hcall (handle : Option Nat) : ∀ pl ∈ StudyCallOf.spots ⟨st, args, handle⟩, pl.Sound E :=
      List.forall_mem_append.2 ⟨hsound, List.forall_mem_singleton.2 hadmits⟩
    split
    · exact .bind fun _ _ _ => .pure (hcall _)
    · exact .pure (hcall _)
termination_by 4 * sizeOf c + 1

theorem spotted_call (c : Call) (hc : ∀ a ∈ c.args, a.value.OffsetsIn E) :
    Spotted E Node.spots (call c) := by
  have counted (s : Scope) : Yields
      (each (fun (a : Arg { e : Expr // ∃ a ∈ c.args, a.value = e }) => expr a.value.1)
        c.attach.args) s fun ns _ =>
        ns.length = c.args.length ∧ ∀ pl ∈ Node.allSpots ns, pl.Sound E := by
    refine (Spotted.each_length (q := Node.spots) (fun a _ =>
      have := sizeOf_arg_lt a.value.2
      spotted_expr a.value.1 (.attached hc a.value)) s).mono fun ns _ h => ?_
    rw [Node.allSpots_eq]
    exact ⟨h.1.trans (by simp [CallOf.attach]), h.2⟩
  have positional : Spotted E Node.allSpots
      (each (fun (a : Arg { e : Expr // ∃ a ∈ c.args, a.value = e }) => expr a.value.1)
        c.attach.args) := fun s => (counted s).mono fun _ _ h => h.2
  rw [call]
  split
  · refine (spotted_study c hc).bind fun k hk => ?_
    dsimp only
    split
    · exact .after fun _ => .pure hk
    · exact .pure hk
  dsimp only
  split
  · rename_i f _
    intro s
    refine .bind (yields_checkPositional fun hcount => ?_)
    refine .bind ((counted s).mono fun ns _ hns => .pure ?_)
    have hmath : (Spot.math f ns).Sound E := (congrArg f.argCount.admits hns.1).trans hcount
    exact List.forall_mem_append.2 ⟨hns.2, List.forall_mem_singleton.2 hmath⟩
  split
  · refine .after fun _ => positional.map fun ns a ha => ?_
    cases ns with
    | nil => nomatch ha
    | cons n ns => exact List.mem_append_left _ ha
  split
  · refine .after fun _ => positional.map fun ns a ha => ?_
    match ns, ha with
    | [], ha => nomatch ha
    | [n], ha => exact ha
    | n :: r :: ns, ha =>
      simp only [Node.spots, List.headD_cons, List.getD_cons_succ, List.getD_cons_zero,
        List.mem_append, Node.allSpots] at ha ⊢
      exact ha.imp_right .inl
  · exact .after fun _ => .none rfl
termination_by 4 * sizeOf c + 2

end

/-! ## Drawings -/

theorem spotted_positional {c : Call} (hc : ∀ a ∈ c.args, a.value.OffsetsIn E) (count : ArgCount) :
    Spotted E Node.allSpots (positional c count) := by
  refine .after fun _ => ?_
  have h : Spotted E (fun ns => ns.flatMap Node.spots) (each (fun a => expr a.value) c.args) :=
    .each fun a ha => spotted_expr a.value (hc a ha)
  simpa only [← Node.allSpots_eq] using h

theorem spotted_option (e : Expr) (he : e.OffsetsIn E) : Spotted E OptionNode.spots (option e) := by
  have number : Spotted E OptionNode.spots (do return .number (← expr e)) :=
    (spotted_expr e he).map fun _ _ hpl => hpl
  rw [option.eq_def]
  cases e with
  | text t => exact .none rfl
  | flag f => exact .none rfl
  | name nm position =>
    dsimp only
    split
    · split
      · exact .none rfl
      · exact .fail _ _
    · exact number
  | call c =>
    have hc := he.args
    dsimp only
    split
    · exact (spotted_positional hc _).map fun _ _ hpl => hpl
    split
    · refine .after fun bound => ?_
      split
      · exact .fail _ _
      · rename_i base _
        have := sizeOf_arg_lt base.2
        refine (spotted_option base.1 (.attached hc base)).bind fun b hb => ?_
        split
        · rename_i alpha _
          exact (spotted_expr alpha.1 (.attached hc alpha)).bind fun n hn =>
            .pure (List.forall_mem_append.2 ⟨hb, hn⟩)
        · exact .pure (List.forall_mem_append.2 ⟨hb, List.forall_mem_nil _⟩)
    · exact number
  | _ => exact number
termination_by sizeOf e
decreasing_by subst_vars; simp only [Expr.call.sizeOf_spec]; omega

theorem spotted_options {xs : List (String × Expr)} (hxs : ∀ x ∈ xs, x.2.OffsetsIn E) :
    Spotted E optionSpots (options xs) :=
  .each (q := fun o : String × OptionNode => o.2.spots)
    fun x hx => (spotted_option x.2 (hxs x hx)).map fun _ _ hpl => hpl

/-- The offsets in the arguments that a call has bound. -/
theorem spotted_bind {β : Type} {q : β → List Spot} {c : Call} {params : List String}
    {allowExtra : Bool} {f : BoundArgs Expr → ResolveM β}
    (hc : ∀ a ∈ c.args, a.value.OffsetsIn E)
    (hf : ∀ b : BoundArgs Expr, (∀ e, some e ∈ b.slots → e.OffsetsIn E) →
      (∀ x ∈ b.extra, x.2.OffsetsIn E) → Spotted E q (f b)) :
    Spotted E q (Resolve.bind c params allowExtra >>= f) := by
  intro s
  refine .bind fun b s₁ hb => ?_
  obtain ⟨-, hslots, hextra⟩ := CallOf.bind_from hc (bind_eq_ok hb)
  exact hf b hslots hextra s₁

section

variable {b : BoundArgs Expr} (hslots : ∀ e, some e ∈ b.slots → e.OffsetsIn E)
include hslots

theorem spotted_requiredValue (c : Call) (params : List String) (i : Nat) :
    Spotted E Node.spots (requiredValue c params b i) := by
  intro s
  refine .bind ?_
  unfold required
  split
  · rename_i e he
    exact .pure (spotted_expr e (hslots e (BoundArgs.mem_slots he)) s)
  · exact yields_fail

theorem spotted_optionArgs (hextra : ∀ x ∈ b.extra, x.2.OffsetsIn E) (params : List String)
    (first : Nat) : Spotted E optionSpots (options (optionArgs params b first)) := by
  refine spotted_options fun x hx => ?_
  rcases List.mem_append.1 hx with hx | hx
  · obtain ⟨⟨name, slot⟩, hmem, hx⟩ := List.mem_filterMap.1 hx
    obtain ⟨e, rfl, rfl⟩ := Option.map_eq_some_iff.1 hx
    exact hslots e (List.of_mem_zip (List.mem_of_mem_drop hmem)).2
  · exact hextra x hx

end

section

variable {c : Call} (hc : ∀ a ∈ c.args, a.value.OffsetsIn E)
include hc

theorem spotted_plot (char : Bool) : Spotted E (fun d => d.1.spots) (plot c char) := by
  refine spotted_bind hc fun b hslots hextra => ?_
  refine (spotted_requiredValue hslots c _ 0).bind fun v hv => .after fun t => ?_
  exact (spotted_optionArgs hslots hextra _ _).bind fun os hos =>
    .pure (List.forall_mem_append.2 ⟨hv, hos⟩)

theorem spotted_candle (bar : Bool) : Spotted E Drawing.spots (candle c bar) := by
  refine spotted_bind hc fun b hslots hextra => ?_
  refine (spotted_requiredValue hslots c _ 0).bind fun o ho => ?_
  refine (spotted_requiredValue hslots c _ 1).bind fun h hh => ?_
  refine (spotted_requiredValue hslots c _ 2).bind fun l hl => ?_
  refine (spotted_requiredValue hslots c _ 3).bind fun cl hcl => .after fun t => ?_
  refine (spotted_optionArgs hslots hextra _ _).bind fun os hos => .pure ?_
  simp only [Drawing.spots, List.forall_mem_append]
  exact ⟨ho, hh, hl, hcl, hos⟩

theorem spotted_fill : Spotted E Drawing.spots (fill c) :=
  spotted_bind hc fun _ hslots hextra => .after fun _ => .after fun _ => .after fun _ =>
    .after fun _ => (spotted_optionArgs hslots hextra _ _).map fun _ _ hpl => hpl

theorem spotted_hline : Spotted E Drawing.spots (hline c) := by
  refine spotted_bind hc fun b hslots hextra => ?_
  refine (spotted_requiredValue hslots c _ 0).bind fun p hp => .after fun t => ?_
  exact (spotted_optionArgs hslots hextra _ _).bind fun os hos =>
    .pure (List.forall_mem_append.2 ⟨hp, hos⟩)

omit hc in
theorem spotted_indicator : Spotted E Drawing.spots (indicator c) :=
  .after fun _ => .after fun _ => .after fun _ => .after fun _ => .none rfl

theorem spotted_drawing {m : ResolveM Drawing} (h : drawing? c = some m) :
    Spotted E Drawing.spots m := by
  unfold drawing? at h
  split at h <;> cases h
  · exact (spotted_plot hc false).map fun _ _ hpl => hpl
  · exact (spotted_plot hc true).map fun _ _ hpl => hpl
  · exact spotted_candle hc false
  · exact spotted_candle hc true
  · exact spotted_fill hc
  · exact spotted_hline hc
  · exact spotted_indicator

end

/-! ## Statements -/

def Compiled.spots : Compiled → List Spot
  | .op o => o.spots
  | .result r => r.spots

theorem spotted_expression (e : Expr) (he : e.OffsetsIn E) : Spotted E Op.spots (expression e) := by
  have plain : Spotted E Op.spots (do return .eval (← expr e)) :=
    (spotted_expr e he).map fun _ _ hpl => hpl
  unfold expression
  dsimp only
  split
  · split
    · rename_i c m hm
      exact (spotted_drawing he.args hm).map fun _ _ hpl => hpl
    · exact plain
  · exact plain

theorem spotted_declaration (kind : DeclKind) (nm : String) (value : Expr) (position : Nat)
    (he : value.OffsetsIn E) : Spotted E Op.spots (declaration kind nm value position) := by
  unfold declaration
  split
  · rename_i m hm
    obtain ⟨c, char, -, rfl, -, rfl⟩ := boundPlot?_eq_some hm
    exact (spotted_plot he.args char).bind fun d hd => .after fun _ => .pure hd
  · refine (spotted_expr value he).bind fun v hv => .after fun id => .after fun _ => ?_
    split <;> exact .pure hv

theorem spotted_statement (st : Statement) (hst : ∀ e ∈ st.exprs, e.OffsetsIn E) :
    Spotted E Compiled.spots (statement st) := by
  cases st with
  | declare kind nm value position =>
    exact (spotted_declaration kind nm value position (hst _ (.head _))).map fun _ _ hpl => hpl
  | reassign nm value position =>
    exact .after fun _ => (spotted_expr value (hst _ (.head _))).map fun _ _ hpl => hpl
  | unpack names c position =>
    have hcall : (Expr.call c).OffsetsIn E := hst _ (.head _)
    refine (spotted_study c hcall.args).bind fun k hk => ?_
    dsimp only
    split
    · exact .after fun _ => .after fun _ => .pure hk
    · exact .after fun _ => .pure hk
  | expr e => exact (spotted_expression e (hst _ (.head _))).map fun _ _ hpl => hpl
  | result value position =>
    cases value with
    | single e => exact (spotted_expr e (hst _ (.head _))).map fun _ _ hpl => hpl
    | named xs =>
      have h : Spotted E (fun fs => fs.flatMap fun f : String × Node => f.2.spots) (fields xs) :=
        .each fun x hx => (spotted_expr x.2 (hst _ (List.mem_map_of_mem hx))).map fun _ _ hpl => hpl
      exact h.map fun _ _ hpl => hpl

end Resolve

/-- **The spots of a compiled program** are in range, and its offsets are what the offsets in the
script have become. -/
theorem compileStatements_spots {ss : List Statement} {p : Program}
    (h : compileStatements ss = .ok p) :
    ∀ pl ∈ p.spots, pl.Sound fun o => ∃ st ∈ ss, st.HasOffset o := by
  obtain ⟨s', hresolved, -⟩ := compileStatements_ok_iff.1 h
  have hexprs : ∀ st ∈ ss, ∀ e ∈ st.exprs, e.OffsetsIn fun o => ∃ st ∈ ss, st.HasOffset o :=
    fun st hst e he o ho => ⟨st, hst, e, he, ho⟩
  intro pl hpl
  rcases List.mem_append.1 hpl with hpl | hpl
  · obtain ⟨o, ho, hpl⟩ := List.mem_flatMap.1 hpl
    obtain ⟨k, hk⟩ := List.mem_iff_getElem?.1 ho
    obtain ⟨st, s, s₁, hst, -, hstatement⟩ := hresolved.op_at hk
    have hmem := List.mem_of_getElem? hst
    exact Resolve.spotted_statement st (hexprs st hmem) s _ s₁ hstatement pl hpl
  · cases hresult : p.result with
    | none => rw [hresult] at hpl; cases hpl
    | some r =>
      rw [hresult] at hpl hresolved
      obtain ⟨before, st, s, rfl, -, hstatement⟩ := hresolved.result_at
      exact Resolve.spotted_statement st (hexprs st (by simp)) s _ s' hstatement pl hpl

end BarScript
