import BarScript.Proofs.Allocation
import BarScript.Script.Compile

/-!
# What resolution gives away

`Yields m s post`: a resolution that succeeds on the scope `s` ends in `post`. The effects of a
resolved expression are `Allocated` between the scopes before and after it (`yields_expr`), and so
are those of an instruction unless it is a reassignment (`yields_statement`). So the handles of a
compiled program are numbered in order (`compile_handles`), and what its cached calls consume is
written before them as long as no variable is reassigned after it has been consumed
(`compile_fedFirst`).
-/

namespace BarScript

theorem DeclKind.bank_ne (kind : DeclKind) : kind.bank ≠ .computed := by cases kind <;> decide

namespace Resolve

/-- If the computation succeeds on the scope, its result and the new scope are in `post`. -/
def Yields {β : Type} (m : ResolveM β) (s : Scope) (post : β → Scope → Prop) : Prop :=
  ∀ x s', m s = .ok (x, s') → post x s'

section

variable {β γ : Type} {s : Scope} {post : β → Scope → Prop}

theorem Yields.pure {x : β} (h : post x s) : Yields (pure x) s post := by
  rintro _ _ ⟨⟩
  exact h

theorem Yields.bind {m : ResolveM γ} {f : γ → ResolveM β}
    (h : Yields m s fun x s' => Yields (f x) s' post) : Yields (m >>= f) s post := by
  intro y s'' hy
  replace hy : (m s >>= fun p => f p.1 p.2) = .ok (y, s'') := hy
  cases hm : m s with
  | error e => rw [hm] at hy; cases hy
  | ok p => rw [hm] at hy; exact h p.1 p.2 hm y s'' hy

theorem bind_ok {m : ResolveM γ} {f : γ → ResolveM β} {x : γ} {s₁ : Scope}
    (h : m s = .ok (x, s₁)) : (m >>= f) s = f x s₁ := by
  show (m s >>= fun p => f p.1 p.2) = _
  rw [h]
  rfl

theorem Yields.mono {m : ResolveM β} {post' : β → Scope → Prop} (h : Yields m s post)
    (hp : ∀ x s', post x s' → post' x s') : Yields m s post' :=
  fun x s' hm => hp x s' (h x s' hm)

theorem yields_fail {position : Nat} {fault : ResolveFault} : Yields (fail position fault) s post := by
  rintro _ _ ⟨⟩

theorem yields_get {post : Scope → Scope → Prop} (h : post s s) : Yields get s post := by
  rintro _ _ ⟨⟩
  exact h

theorem yields_slot {post : Nat → Scope → Prop} {b : Bank} (h : post (s.taken b) (s.take b)) :
    Yields (slot b) s post := by
  rintro _ _ ⟨⟩
  exact h

theorem yields_handle {post : Nat → Scope → Prop}
    (h : post s.handles { s with handles := s.handles + 1 }) : Yields handle s post := by
  rintro _ _ ⟨⟩
  exact h

theorem yields_bind {ε : Type} {c : CallOf ε} {params : List String} {allowExtra : Bool}
    {post : BoundArgs ε → Scope → Prop} (h : ∀ b, post b s) :
    Yields (bind c params allowExtra) s post := by
  unfold Resolve.bind
  split
  · exact .pure (h _)
  · rintro _ _ ⟨⟩

theorem yields_checkPositional {c : Call} {count : ArgCount} {post : Unit → Scope → Prop}
    (h : count.admits c.args.length = true → post () s) :
    Yields (checkPositional c count) s post := by
  unfold checkPositional
  split
  · exact yields_fail
  · split
    · exact yields_fail
    · rename_i hc
      exact .pure (h (by simpa using hc))

theorem yields_checkFunction {c : Call} {post : Unit → Scope → Prop} :
    Yields (checkFunction c) s post := by
  unfold checkFunction
  split
  · exact yields_fail
  · split <;> exact yields_fail

theorem yields_declare {name : String} {position : Nat} {b : Binding}
    {post : Unit → Scope → Prop}
    (h : s.find? name = none → post () { s with names := s.names ++ [(name, b)] }) :
    Yields (declare name position b) s post := by
  refine .bind (yields_get ?_)
  split
  · exact .bind yields_fail
  · rename_i hnew
    rintro _ _ ⟨⟩
    exact h (by simpa using hnew)

/-- The results of a list have taken one after the other. -/
theorem yields_each {f : γ → ResolveM β} (effects : β → List Effect) {W : Scope → β → Prop}
    (hW : ∀ {s s' y}, (∀ b, s.taken b ≤ s'.taken b) → W s y → W s' y)
    (hf : ∀ x {s}, s.Sound → Yields (f x) s fun y s' => Allocated s s' (effects y) ∧ W s' y)
    (xs : List γ) (hs : s.Sound) :
    Yields (each f xs) s fun ys s' =>
      Allocated s s' (ys.flatMap effects) ∧ (∀ y ∈ ys, W s' y) ∧ ys.length = xs.length := by
  induction xs generalizing s with
  | nil => exact .pure ⟨.nil hs, by simp, rfl⟩
  | cons x xs ih =>
    refine .bind ((hf x hs).mono fun y s₁ h₁ => ?_)
    refine .bind ((ih h₁.1.sound).mono fun ys s₂ h₂ => ?_)
    refine .pure ⟨h₁.1.append h₂.1, fun z hz => ?_, congrArg (· + 1) h₂.2.2⟩
    rcases List.mem_cons.1 hz with rfl | hz
    · exact hW h₂.1.taken_le h₁.2
    · exact h₂.2.1 z hz

end

theorem yields_computed (n : Node) {s₀ s : Scope} (h : Allocated s₀ s n.effects) :
    Yields (computed n) s fun src s' => Allocated s₀ s' src.effects ∧ src.Within s' := by
  refine .bind (yields_slot (.pure ⟨h.append (.write h.sound .computed), ?_⟩))
  rintro a ⟨⟩
  simp

/-- A value that is no series has one of its own under an offset. -/
theorem yields_underOffset {m : ResolveM Node} {offset : Option Node} {s₀ s : Scope}
    (h : Allocated s₀ s (Node.offsetEffects offset))
    (hm : Yields m s fun n s' => s' = s ∧ Allocated s s n.effects) :
    Yields (do
      let value ← m
      match offset with
      | none => return value
      | some offset => return .read (← computed value) (some offset)) s
      fun n s' => Allocated s₀ s' n.effects := by
  refine .bind (hm.mono fun n s' hn => ?_)
  obtain ⟨rfl, hn⟩ := hn
  cases offset with
  | none => exact .pure (h.append hn)
  | some o =>
    refine .bind ((yields_computed n hn).mono fun src s₁ h₁ => .pure ?_)
    exact h.append h₁.1

theorem yields_name (nm : String) (position : Nat) (offset : Option Node) {s₀ s : Scope}
    (h : Allocated s₀ s (Node.offsetEffects offset)) :
    Yields (name nm position offset) s fun n s' => Allocated s₀ s' n.effects := by
  have read : ∀ src : Source, src.effects = [] → Allocated s₀ s (Node.read src offset).effects := by
    intro src hsrc
    rwa [Node.effects, hsrc, List.append_nil]
  refine .bind (yields_get ?_)
  split
  · exact .pure (read _ rfl)
  · exact yields_fail
  split
  · exact .pure (read _ rfl)
  split
  · exact .pure h
  dsimp only
  split
  · exact yields_underOffset h (.pure ⟨rfl, .nil h.sound⟩)
  split
  · exact yields_underOffset h (.pure ⟨rfl, .plainCall h.sound rfl (by rintro a ⟨⟩)⟩)
  split <;> exact .bind yields_fail

/-- A bare name has no effects and stands for a slot that has been taken. -/
theorem namedSource?_spec {e : Expr} {src : Source} {s : Scope} (hs : s.Sound)
    (h : namedSource? s e = some src) : Allocated s s src.effects ∧ src.Within s := by
  unfold namedSource? at h
  split at h
  · split at h
    · rename_i hfind
      cases h
      refine ⟨.nil hs, ?_⟩
      rintro a ⟨⟩
      exact (hs.find hfind).2
    · cases h
    · obtain ⟨p, -, rfl⟩ := Option.map_eq_some_iff.1 h
      exact ⟨.nil hs, by rintro a ⟨⟩⟩
  · cases h

/-- A call consumes a slot of its first argument. -/
theorem feed?_within {c : StudyCall} {s : Scope} (h : ∀ b ∈ c.args, b.Within s) {a : Bank × Nat}
    (ha : c.feed? = some a) : a.2 < s.taken a.1 := by
  unfold StudyCallOf.feed? at ha
  dsimp only at ha
  split at ha
  · rename_i src _ hfirst
    exact h _ (List.mem_of_getElem? hfirst) a ha
  · cases ha

mutual

theorem yields_expr (e : Expr) {s : Scope} (hs : s.Sound) :
    Yields (expr e) s fun n s' => Allocated s s' n.effects := by
  cases e with
  | number l => rw [expr]; exact .pure (.nil hs)
  | flag b => rw [expr]; exact .pure (.nil hs)
  | na => rw [expr]; exact .pure (.nil hs)
  | text t => rw [expr]; exact yields_fail
  | name nm position => rw [expr]; exact yields_name nm position none (.nil hs)
  | history target offset position =>
    rw [expr]
    refine .bind ((yields_expr offset hs).mono fun o s₁ h₁ => ?_)
    split
    · exact yields_name _ _ (some o) h₁
    · refine .bind ((yields_expr target h₁.sound).mono fun n s₂ h₂ => ?_)
      refine .bind ((yields_computed n h₂).mono fun src s₃ h₃ => .pure ?_)
      exact h₁.append h₃.1
  | unary op operand =>
    rw [expr]
    exact .bind ((yields_expr operand hs).mono fun n s₁ h₁ => .pure h₁)
  | binary op left right =>
    rw [expr]
    refine .bind ((yields_expr left hs).mono fun l s₁ h₁ => ?_)
    exact .bind ((yields_expr right h₁.sound).mono fun r s₂ h₂ => .pure (h₁.append h₂))
  | ternary cond yes no =>
    rw [expr]
    refine .bind ((yields_expr cond hs).mono fun c s₁ h₁ => ?_)
    refine .bind ((yields_expr yes h₁.sound).mono fun y s₂ h₂ => ?_)
    refine .bind ((yields_expr no h₂.sound).mono fun n s₃ h₃ => .pure ?_)
    exact h₁.append (h₂.append h₃)
  | call c => rw [expr]; exact yields_call c hs
termination_by 4 * sizeOf e

theorem yields_source (e : Expr) {s : Scope} (hs : s.Sound) :
    Yields (source e) s fun src s' => Allocated s s' src.effects ∧ src.Within s' := by
  rw [source]
  refine .bind (yields_get ?_)
  split
  · rename_i src hsrc
    exact .pure (namedSource?_spec hs hsrc)
  · exact .bind ((yields_expr e hs).mono fun n s₁ h₁ => yields_computed n h₁)
termination_by 4 * sizeOf e + 1

theorem yields_argument (c : Call) (p : Param)
    (arg : Option { e : Expr // ∃ a ∈ c.args, a.value = e }) {s : Scope} (hs : s.Sound) :
    Yields (argument c p arg) s fun b s' => Allocated s s' b.effects ∧ b.Within s' := by
  have series : ∀ e : { e : Expr // ∃ a ∈ c.args, a.value = e },
      Yields (do return Bound.series (← source e.1)) s
        fun b s' => Allocated s s' b.effects ∧ b.Within s' := fun e =>
    have := sizeOf_arg_lt e.2
    .bind ((yields_source e.1 hs).mono fun src s₁ h₁ => .pure h₁)
  have number : ∀ e : { e : Expr // ∃ a ∈ c.args, a.value = e },
      Yields (do return Bound.number (← expr e.1)) s
        fun b s' => Allocated s s' b.effects ∧ b.Within s' := fun e =>
    have := sizeOf_arg_lt e.2
    .bind ((yields_expr e.1 hs).mono fun n s₁ h₁ => .pure ⟨h₁, trivial⟩)
  rw [argument.eq_def]
  split
  · exact series _
  · exact series _
  · exact number _
  · exact number _
  · exact number _
  · exact .pure ⟨.nil hs, trivial⟩
  · exact .pure ⟨.nil hs, trivial⟩
  · exact .pure ⟨.nil hs, trivial⟩
  · exact yields_fail
  · exact yields_fail
termination_by 4 * sizeOf c

theorem yields_study (c : Call) {s : Scope} (hs : s.Sound) :
    Yields (study c) s fun k s' => Allocated s s' k.effects := by
  rw [study]
  split
  · exact yields_fail
  · rename_i st hst
    refine .bind (yields_bind fun bound => ?_)
    refine .bind ((yields_each Bound.effects (W := fun s b => b.Within s)
      Bound.Within.mono (fun pa _ hs => yields_argument c pa.1 pa.2 hs) _ hs).mono
      fun args s₁ h₁ => ?_)
    rw [← Bound.allEffects_eq] at h₁
    have feed : ∀ h a, (⟨st, args, h⟩ : StudyCall).feed? = some a → a.2 < s₁.taken a.1 :=
      fun _ _ => feed?_within h₁.2.1
    split
    · rename_i hcached
      refine .bind (yields_handle (.pure ?_))
      exact h₁.1.append (.cachedCall h₁.1.sound rfl hcached (feed _))
    · exact .pure (h₁.1.append (.plainCall h₁.1.sound rfl (feed _)))
termination_by 4 * sizeOf c + 1

theorem yields_call (c : Call) {s : Scope} (hs : s.Sound) :
    Yields (call c) s fun n s' => Allocated s s' n.effects := by
  have positional : ∀ {s : Scope}, s.Sound → Yields
      (each (fun (a : Arg { e : Expr // ∃ a ∈ c.args, a.value = e }) => expr a.value.1)
        c.attach.args) s
      fun ns s' => Allocated s s' (Node.allEffects ns) ∧ ns.length = c.args.length := by
    intro s hs
    refine (yields_each Node.effects (W := fun _ _ => True) (fun _ h => h)
      (fun a _ hs => ?_) _ hs).mono fun ns s₁ h₁ => ?_
    · have := sizeOf_arg_lt a.value.2
      exact (yields_expr a.value.1 hs).mono fun n s₁ h₁ => ⟨h₁, trivial⟩
    · rw [Node.allEffects_eq]
      refine ⟨h₁.1, h₁.2.2.trans ?_⟩
      simp [CallOf.attach]
  rw [call]
  split
  · refine .bind ((yields_study c hs).mono fun k s₁ h₁ => ?_)
    dsimp only
    split
    · exact .bind yields_fail
    · exact .pure h₁
  dsimp only
  split
  · refine .bind (yields_checkPositional fun _ => ?_)
    exact .bind ((positional hs).mono fun ns s₁ h₁ => .pure h₁.1)
  split
  · refine .bind (yields_checkPositional fun hcount => ?_)
    refine .bind ((positional hs).mono fun ns s₁ h₁ => .pure ?_)
    obtain ⟨h₁, hlen⟩ := h₁
    simp only [ArgCount.exactly, ArgCount.admits, Option.all_some, Bool.and_eq_true,
      decide_eq_true_eq, ← hlen] at hcount
    obtain ⟨n, rfl⟩ := List.length_eq_one_iff.1 (Nat.le_antisymm hcount.2 hcount.1)
    simpa [Node.effects, Node.allEffects] using h₁
  split
  · refine .bind (yields_checkPositional fun hcount => ?_)
    refine .bind ((positional hs).mono fun ns s₁ h₁ => .pure ?_)
    obtain ⟨h₁, hlen⟩ := h₁
    simp only [ArgCount.admits, Option.all_some, Bool.and_eq_true, decide_eq_true_eq,
      ← hlen] at hcount
    match ns, hcount with
    | [n], _ => simpa [Node.effects, Node.allEffects] using h₁
    | [n, r], _ => simpa [Node.effects, Node.allEffects] using h₁
  · exact .bind yields_checkFunction
termination_by 4 * sizeOf c + 2

end

/-! ## Drawings -/

theorem yields_positional (c : Call) (count : ArgCount) {s : Scope} (hs : s.Sound) :
    Yields (positional c count) s fun ns s' => Allocated s s' (Node.allEffects ns) := by
  refine .bind (yields_checkPositional fun _ => ?_)
  refine (yields_each Node.effects (W := fun _ _ => True) (fun _ h => h)
    (fun a _ hs => (yields_expr a.value hs).mono fun n s₁ h => ⟨h, trivial⟩) _ hs).mono
    fun ns s₁ h => ?_
  rw [Node.allEffects_eq]
  exact h.1

theorem yields_option (e : Expr) {s : Scope} (hs : s.Sound) :
    Yields (option e) s fun o s' => Allocated s s' o.effects := by
  have number : Yields (do return .number (← expr e)) s
      fun (o : OptionNode) s' => Allocated s s' o.effects :=
    .bind ((yields_expr e hs).mono fun n s₁ h => .pure h)
  rw [option.eq_def]
  cases e with
  | text t => exact .pure (.nil hs)
  | flag f => exact .pure (.nil hs)
  | name nm position =>
    dsimp only
    split
    · split
      · exact .pure (.nil hs)
      · exact yields_fail
    · exact number
  | call c =>
    dsimp only
    split
    · exact .bind ((yields_positional c _ hs).mono fun ns s₁ h => .pure h)
    split
    · refine .bind (yields_bind fun bound => ?_)
      split
      · exact yields_fail
      · rename_i base _
        have := sizeOf_arg_lt base.2
        refine .bind ((yields_option base.1 hs).mono fun b s₁ h₁ => ?_)
        split
        · rename_i alpha _
          refine .bind ((yields_expr alpha.1 h₁.sound).mono fun a s₂ h₂ => .pure ?_)
          exact h₁.append h₂
        · refine .pure ?_
          rw [OptionNode.effects, Node.offsetEffects, List.append_nil]
          exact h₁
    · exact number
  | _ => exact number
termination_by sizeOf e

theorem yields_options (xs : List (String × Expr)) {s : Scope} (hs : s.Sound) :
    Yields (options xs) s fun os s' => Allocated s s' (optionEffects os) :=
  (yields_each (fun o : String × OptionNode => o.2.effects) (W := fun _ _ => True)
    (fun _ h => h)
    (fun x _ hs => .bind ((yields_option x.2 hs).mono fun _ _ h => .pure ⟨h, trivial⟩)) xs hs).mono
    fun _ _ h => h.1

section

variable {s : Scope} {b : BoundArgs Expr} {i : Nat}

theorem yields_required {c : Call} {params : List String} {post : Expr → Scope → Prop}
    (h : ∀ e, post e s) : Yields (required c params b i) s post := by
  unfold required
  split
  · exact .pure (h _)
  · exact yields_fail

theorem yields_requiredValue {c : Call} {params : List String} (hs : s.Sound) :
    Yields (requiredValue c params b i) s fun n s' => Allocated s s' n.effects :=
  .bind (yields_required fun e => yields_expr e hs)

theorem yields_text {what : String} {e : Expr} {post : String → Scope → Prop}
    (h : ∀ t, post t s) : Yields (text what e) s post := by
  unfold text
  split
  · exact .pure (h _)
  · exact yields_fail

theorem yields_title {default : String} {post : String → Scope → Prop} (h : ∀ t, post t s) :
    Yields (title b i default) s post := by
  unfold title
  split
  · exact yields_text h
  · exact .pure (h _)

theorem yields_text? {what : String} {post : Option String → Scope → Prop} (h : ∀ t, post t s) :
    Yields (text? b i what) s post := by
  unfold text?
  split
  · exact .bind (yields_text fun t => .pure (h _))
  · exact .pure (h _)

theorem yields_plotTitle {e : Expr} {post : String → Scope → Prop} (h : ∀ t, post t s) :
    Yields (plotTitle e) s post := by
  unfold plotTitle
  split
  · exact .pure (h _)
  · refine .bind (yields_get ?_)
    split
    · exact .pure (h _)
    · exact yields_fail
  · exact yields_fail

theorem yields_overlay? {post : Option Bool → Scope → Prop} (h : ∀ f, post f s) :
    Yields (overlay? b i) s post := by
  unfold overlay?
  split
  · exact .pure (h _)
  · exact yields_fail
  · exact .pure (h _)

end

theorem yields_plot (c : Call) (char : Bool) {s : Scope} (hs : s.Sound) :
    Yields (plot c char) s fun d s' => Allocated s s' d.1.effects := by
  refine .bind (yields_bind fun b => ?_)
  refine .bind ((yields_requiredValue hs).mono fun v s₁ h₁ => .bind (yields_title fun t => ?_))
  exact .bind ((yields_options _ h₁.sound).mono fun os s₂ h₂ => .pure (h₁.append h₂))

theorem yields_candle (c : Call) (bar : Bool) {s : Scope} (hs : s.Sound) :
    Yields (candle c bar) s fun d s' => Allocated s s' d.effects := by
  refine .bind (yields_bind fun b => ?_)
  refine .bind ((yields_requiredValue hs).mono fun o s₁ h₁ => ?_)
  refine .bind ((yields_requiredValue h₁.sound).mono fun h s₂ h₂ => ?_)
  refine .bind ((yields_requiredValue h₂.sound).mono fun l s₃ h₃ => ?_)
  refine .bind ((yields_requiredValue h₃.sound).mono fun c s₄ h₄ => ?_)
  refine .bind (yields_title fun t => ?_)
  refine .bind ((yields_options _ h₄.sound).mono fun os s₅ h₅ => .pure ?_)
  exact h₁.append (h₂.append (h₃.append (h₄.append h₅)))

theorem yields_fill (c : Call) {s : Scope} (hs : s.Sound) :
    Yields (fill c) s fun d s' => Allocated s s' d.effects := by
  refine .bind (yields_bind fun b => ?_)
  refine .bind (yields_required fun e₁ => .bind (yields_plotTitle fun t₁ => ?_))
  refine .bind (yields_required fun e₂ => .bind (yields_plotTitle fun t₂ => ?_))
  exact .bind ((yields_options _ hs).mono fun os s₁ h₁ => .pure h₁)

theorem yields_hline (c : Call) {s : Scope} (hs : s.Sound) :
    Yields (hline c) s fun d s' => Allocated s s' d.effects := by
  refine .bind (yields_bind fun b => ?_)
  refine .bind ((yields_requiredValue hs).mono fun p s₁ h₁ => .bind (yields_title fun t => ?_))
  exact .bind ((yields_options _ h₁.sound).mono fun os s₂ h₂ => .pure (h₁.append h₂))

theorem yields_indicator (c : Call) {s : Scope} (hs : s.Sound) :
    Yields (indicator c) s fun d s' => Allocated s s' d.effects := by
  refine .bind (yields_bind fun b => ?_)
  refine .bind (yields_text? fun t => .bind (yields_text? fun u => ?_))
  exact .bind (yields_overlay? fun f => .pure (.nil hs))

theorem yields_drawing {c : Call} {m : ResolveM Drawing} (h : drawing? c = some m) {s : Scope}
    (hs : s.Sound) : Yields m s fun d s' => Allocated s s' d.effects := by
  unfold drawing? at h
  split at h <;> cases h
  · exact .bind ((yields_plot c false hs).mono fun d s₁ h₁ => .pure h₁)
  · exact .bind ((yields_plot c true hs).mono fun d s₁ h₁ => .pure h₁)
  · exact yields_candle c false hs
  · exact yields_candle c true hs
  · exact yields_fill c hs
  · exact yields_hline c hs
  · exact yields_indicator c hs

/-! ## Instructions -/

/-- What a statement has taken. A reassignment writes a slot that there was before. -/
def Taken (s s' : Scope) : Compiled → Prop
  | .op o => Allocated s s' o.effects ∨
      ∃ bank id v, o = .set bank id v ∧ s.Assignable bank id ∧ Allocated s s' v.effects
  | .result r => Allocated s s' r.effects

/-- The plot that a binding is given is the call of a plotting function. -/
theorem boundPlot?_eq_some {kind : DeclKind} {value : Expr} {m : ResolveM (Drawing × String)}
    (h : boundPlot? kind value = some m) :
    ∃ (c : Call) (char : Bool), kind = .binding ∧ value = .call c ∧
      c.name = (if char then "plotchar" else "plot") ∧ m = plot c char := by
  unfold boundPlot? at h
  split at h
  · rename_i c
    split at h
    · rename_i hname
      cases h
      exact ⟨c, false, rfl, rfl, hname, rfl⟩
    · split at h <;> cases h
      rename_i hname
      exact ⟨c, true, rfl, rfl, hname, rfl⟩
  · cases h

theorem yields_declaration (kind : DeclKind) (nm : String) (value : Expr) (position : Nat)
    {s : Scope} (hs : s.Sound) :
    Yields (declaration kind nm value position) s fun o s' => Allocated s s' o.effects := by
  unfold declaration
  split
  · rename_i m hm
    obtain ⟨c, char, -, -, -, rfl⟩ := boundPlot?_eq_some hm
    refine .bind ((yields_plot c char hs).mono fun d s₁ h₁ => ?_)
    exact .bind (yields_declare fun _ => .pure (h₁.named _ _ (by simp)))
  · refine .bind ((yields_expr value hs).mono fun v s₁ h₁ => ?_)
    refine .bind (yields_slot (.bind (yields_declare fun _ => ?_)))
    have h : Allocated s _ (v.effects ++ [.set kind.bank (s₁.taken kind.bank)]) :=
      (h₁.append (.write h₁.sound kind.bank)).named nm (.series kind.bank (s₁.taken kind.bank)) (by
          rintro bank id ⟨⟩
          exact ⟨DeclKind.bank_ne kind, by simp, fun n hm =>
            h₁.sound.not_named n _ (by simpa using hm)⟩)
    split <;> exact .pure h

theorem yields_reassigned {nm : String} {position : Nat} {s : Scope} (hs : s.Sound)
    {post : Bank × Nat → Scope → Prop}
    (h : ∀ bank id, s.find? nm = some (.series bank id) → s.Assignable bank id → post (bank, id) s) :
    Yields (reassigned nm position) s post := by
  refine .bind (yields_get ?_)
  split
  · exact yields_fail
  · rename_i hconstant hfind
    obtain ⟨hbank, htaken⟩ := hs.find hfind
    exact .pure (h _ _ hfind ⟨hbank, hconstant, htaken⟩)
  · exact yields_fail
  · exact yields_fail

/-- Every target is a new binding with a name of its own. -/
theorem yields_targets (position : Nat) (names : List String) {s : Scope} (hs : s.Sound) :
    Yields (targets position names) s fun ids s' =>
      Allocated s s' (ids.map (.set .bindings ·)) ∧ ids.length = names.length ∧
        ∀ x ∈ names, s.find? x = none ∧ ∃ id ∈ ids, s.taken .bindings ≤ id ∧
          s'.find? x = some (.series .bindings id) := by
  induction names generalizing s with
  | nil => exact .pure ⟨.nil hs, rfl, by simp⟩
  | cons nm names ih =>
    refine .bind (yields_slot (.bind (yields_declare fun hnew => ?_)))
    have h : Allocated s _ [.set .bindings (s.taken .bindings)] :=
      (Allocated.write hs .bindings).named nm (.series .bindings (s.taken .bindings)) (by
          rintro bank id ⟨⟩
          exact ⟨by decide, by simp, fun n hm => hs.not_named n _ (by simpa using hm)⟩)
    refine .bind ((ih h.sound).mono fun ids s₁ h₁ => .pure ?_)
    obtain ⟨hrest, hlen, hnames⟩ := h₁
    refine ⟨h.append hrest, congrArg (· + 1) hlen, fun x hx => ?_⟩
    rcases List.mem_cons.1 hx with rfl | hx
    · exact ⟨hnew, _, .head _, Nat.le_refl _,
        Scope.find?_of_prefix hrest.names (Scope.find?_declared hnew _)⟩
    · obtain ⟨hnone, id, hid, hle, hfind⟩ := hnames x hx
      exact ⟨h.not_found hnone, id, .tail _ hid, Nat.le_trans (h.taken_le .bindings) hle, hfind⟩

theorem yields_expression (e : Expr) {s : Scope} (hs : s.Sound) :
    Yields (expression e) s fun o s' => Allocated s s' o.effects := by
  have plain : Yields (do return .eval (← expr e)) s
      fun (o : Op) s' => Allocated s s' o.effects :=
    .bind ((yields_expr e hs).mono fun n s₁ h₁ => .pure h₁)
  unfold expression
  dsimp only
  split
  · split
    · rename_i d hd
      exact .bind ((yields_drawing hd hs).mono fun d s₁ h₁ => .pure h₁)
    · exact plain
  · exact plain

theorem yields_statement (st : Statement) {s : Scope} (hs : s.Sound) :
    Yields (statement st) s fun c s' => Taken s s' c := by
  cases st with
  | declare kind nm value position =>
    exact .bind ((yields_declaration kind nm value position hs).mono fun o s₁ h₁ => .pure (.inl h₁))
  | reassign nm value position =>
    refine .bind (yields_reassigned hs fun bank id _ hassignable => ?_)
    refine .bind ((yields_expr value hs).mono fun v s₁ h₁ => .pure (.inr ?_))
    exact ⟨bank, id, v, rfl, hassignable, h₁⟩
  | unpack names call position =>
    refine .bind ((yields_study call hs).mono fun k s₁ h₁ => ?_)
    dsimp only
    split
    · exact .bind yields_fail
    · refine .bind ((yields_targets position names h₁.sound).mono fun ids s₂ h₂ => .pure (.inl ?_))
      exact h₁.append h₂.1
  | expr e => exact .bind ((yields_expression e hs).mono fun o s₁ h₁ => .pure (.inl h₁))
  | result value position =>
    cases value with
    | single e => exact .bind ((yields_expr e hs).mono fun n s₁ h₁ => .pure h₁)
    | named xs =>
      refine .bind ((yields_each (fun f : String × Node => f.2.effects)
        (W := fun _ _ => True) (fun _ h => h)
        (fun x _ hs => .bind ((yields_expr x.2 hs).mono fun _ _ h => .pure ⟨h, trivial⟩))
        xs hs).mono fun fs s₁ h₁ => .pure ?_)
      exact h₁.1

theorem Taken.sound {s s' : Scope} {o : Op} (h : Taken s s' (.op o)) : s'.Sound := by
  rcases h with h | ⟨_, _, _, _, _, h⟩ <;> exact h.sound

/-! ## Programs -/

/-- The instructions were resolved one after the other. -/
inductive Laid : Scope → List Op → Scope → Prop
  | nil {s} (hs : s.Sound) : Laid s [] s
  | cons {s s₁ s' o os} (ho : Taken s s₁ (.op o)) (hos : Laid s₁ os s') : Laid s (o :: os) s'

/-- The statements have become instructions and a result, one after the other. -/
inductive Resolved : Scope → List Statement → List Op → Option Result → Scope → Prop
  | nil {s} : Resolved s [] [] none s
  | op {s s₁ s' st ss o os r} (ho : statement st s = .ok (.op o, s₁))
      (hos : Resolved s₁ ss os r s') : Resolved s (st :: ss) (o :: os) r s'
  | result {s s' st r} (hr : statement st s = .ok (.result r, s')) : Resolved s [st] [] (some r) s'

theorem resolved_of_statements {ss : List Statement} {s s' : Scope} {os : List Op}
    {r : Option Result} (h : statements ss s = .ok ((os, r), s')) : Resolved s ss os r s' := by
  induction ss generalizing s s' os r with
  | nil =>
    cases h
    exact .nil
  | cons st ss ih =>
    have hy : Yields (statements (st :: ss)) s fun p s' => Resolved s (st :: ss) p.1 p.2 s' := by
      refine .bind fun c s₁ hst => ?_
      cases c with
      | op o => exact .bind fun p s₂ hss => .pure (.op hst (ih hss))
      | result r =>
        cases ss with
        | nil => exact .pure (.result hst)
        | cons next rest => exact yields_fail
    exact hy _ _ h

theorem statements_of_resolved {ss : List Statement} {s s' : Scope} {os : List Op}
    {r : Option Result} (h : Resolved s ss os r s') : statements ss s = .ok ((os, r), s') := by
  induction h with
  | nil => rfl
  | op ho _ ih =>
    rw [statements, bind_ok ho]
    exact bind_ok ih
  | result hr => rw [statements, bind_ok hr]; rfl

theorem Resolved.laid {ss : List Statement} {s s' : Scope} {os : List Op} {r : Option Result}
    (hs : s.Sound) (h : Resolved s ss os r s') :
    ∃ s₁, Laid s os s₁ ∧ Allocated s₁ s' (r.elim [] Result.effects) := by
  induction h with
  | nil => exact ⟨_, .nil hs, .nil hs⟩
  | op ho _ ih =>
    have htaken : Taken _ _ (.op _) := yields_statement _ hs _ _ ho
    obtain ⟨s₁, hlaid, hresult⟩ := ih htaken.sound
    exact ⟨s₁, .cons htaken hlaid, hresult⟩
  | result hr => exact ⟨_, .nil hs, yields_statement _ hs _ _ hr⟩

/-- Statements after others are resolved where the others have left off. -/
theorem Resolved.split {ss₁ ss₂ : List Statement} {s s' : Scope} {os : List Op}
    {r : Option Result} (h : Resolved s (ss₁ ++ ss₂) os r s') (hne : ss₂ ≠ []) :
    ∃ os₁ os₂ s₁, os = os₁ ++ os₂ ∧ os₁.length = ss₁.length ∧ Resolved s ss₁ os₁ none s₁ ∧
      Resolved s₁ ss₂ os₂ r s' := by
  induction ss₁ generalizing s os with
  | nil => exact ⟨[], os, s, rfl, rfl, .nil, h⟩
  | cons st ss₁ ih =>
    generalize hss : st :: ss₁ ++ ss₂ = ss at h
    cases h with
    | nil => cases hss
    | op ho hos =>
      obtain ⟨rfl, rfl⟩ := List.cons.inj hss
      obtain ⟨os₁, os₂, s₁, rfl, hlen, h₁, h₂⟩ := ih hos
      exact ⟨_ :: os₁, os₂, s₁, rfl, congrArg (· + 1) hlen, .op ho h₁, h₂⟩
    | result hr =>
      obtain ⟨-, hnil⟩ := List.cons.inj hss
      exact absurd (List.append_eq_nil_iff.1 hnil).2 hne

/-- One of the statements, and those around it. -/
theorem Resolved.at {ss : List Statement} {s s' : Scope} {os : List Op} {r : Option Result}
    (h : Resolved s ss os r s') {i : Nat} {st : Statement} (hst : ss[i]? = some st) :
    ∃ os₁ os₂ s₀ c s₁, Resolved s (ss.take i) os₁ none s₀ ∧ os₁.length = i ∧ os = os₁ ++ os₂ ∧
      statement st s₀ = .ok (c, s₁) ∧
      ((∃ o os₃, c = .op o ∧ os₂ = o :: os₃ ∧ Resolved s₁ (ss.drop (i + 1)) os₃ r s') ∨
        (∃ r', c = .result r' ∧ os₂ = [])) := by
  obtain ⟨hlt, rfl⟩ := List.getElem?_eq_some_iff.1 hst
  rw [show ss = ss.take i ++ ss[i] :: ss.drop (i + 1) by simp] at h
  obtain ⟨os₁, os₂, s₀, hos, hlen, h₁, h₂⟩ := h.split (List.cons_ne_nil _ _)
  rw [List.length_take, Nat.min_eq_left (Nat.le_of_lt hlt)] at hlen
  generalize ss.drop (i + 1) = rest at h₂ ⊢
  cases h₂ with
  | op ho hrest => exact ⟨os₁, _, s₀, _, _, h₁, hlen, hos, ho, .inl ⟨_, _, rfl, rfl, hrest⟩⟩
  | result hr => exact ⟨os₁, _, s₀, _, _, h₁, hlen, hos, hr, .inr ⟨_, rfl, rfl⟩⟩

/-- Every instruction is what a statement has become. -/
theorem Resolved.op_at {ss : List Statement} {s s' : Scope} {os : List Op} {r : Option Result}
    (h : Resolved s ss os r s') {k : Nat} {o : Op} (hk : os[k]? = some o) :
    ∃ st s₀ s₁, ss[k]? = some st ∧ Resolved s (ss.take k) (os.take k) none s₀ ∧
      statement st s₀ = .ok (.op o, s₁) := by
  induction h generalizing k with
  | nil => cases hk
  | op ho hos ih =>
    cases k with
    | zero =>
      cases hk
      exact ⟨_, _, _, rfl, .nil, ho⟩
    | succ k =>
      obtain ⟨st, s₀, s₁, hst, hbefore, hstatement⟩ := ih hk
      exact ⟨st, s₀, s₁, hst, .op ho hbefore, hstatement⟩
  | result hr => cases hk

/-- Without a result every statement has become an instruction. -/
theorem Resolved.length_eq {ss : List Statement} {s s' : Scope} {os : List Op}
    (h : Resolved s ss os none s') : ss.length = os.length := by
  generalize hr : none = r at h
  induction h with
  | nil => rfl
  | op _ _ ih => exact congrArg (· + 1) (ih hr)
  | result _ => cases hr

/-- The result is what the last statement has become. -/
theorem Resolved.result_at {ss : List Statement} {s s' : Scope} {os : List Op} {r : Result}
    (h : Resolved s ss os (some r) s') :
    ∃ before st s₀, ss = before ++ [st] ∧ Resolved s before os none s₀ ∧
      statement st s₀ = .ok (.result r, s') := by
  generalize hr : some r = r' at h
  induction h with
  | nil => cases hr
  | op ho _ ih =>
    obtain ⟨before, st, s₀, rfl, hbefore, hstatement⟩ := ih hr
    exact ⟨_ :: before, st, s₀, rfl, .op ho hbefore, hstatement⟩
  | result hstatement => cases hr; exact ⟨[], _, _, rfl, .nil, hstatement⟩

section

variable {s s₁ s' : Scope} {o : Op} {os : List Op}

/-- What an instruction takes does not depend on whether it declares what it writes. -/
theorem Taken.range (h : Taken s s' (.op o)) :
    s.handles ≤ s'.handles ∧ (∀ b, s.taken b ≤ s'.taken b) ∧
      o.effects.filterMap Effect.handle? = List.range' s.handles (s'.handles - s.handles) := by
  rcases h with h | ⟨bank, id, v, rfl, -, h⟩
  · exact ⟨h.handles_le, h.taken_le, h.handles⟩
  · refine ⟨h.handles_le, h.taken_le, ?_⟩
    rw [Op.effects, List.filterMap_append, h.handles]
    exact List.append_nil _

theorem Taken.computed (h : Taken s s' (.op o)) :
    o.effects.filterMap Effect.computed? =
      List.range' (s.taken .computed) (s'.taken .computed - s.taken .computed) := by
  rcases h with h | ⟨bank, id, v, rfl, hassignable, h⟩
  · exact h.computed
  · have hnone : (Effect.set bank id).computed? = none := by
      cases bank
      case computed => exact absurd rfl hassignable.bank_ne
      all_goals rfl
    rw [Op.effects, List.filterMap_append, h.computed, List.filterMap_cons, hnone]
    exact List.append_nil _

theorem Taken.names (h : Taken s s' (.op o)) : s.names <+: s'.names := by
  rcases h with h | ⟨_, _, _, _, _, h⟩ <;> exact h.names

theorem Taken.fed (h : Taken s s' (.op o)) {k : StudyCall} {a : Bank × Nat}
    (hk : .call k ∈ o.effects) (ha : k.feed? = some a) : a.2 < s'.taken a.1 := by
  rcases h with h | ⟨bank, id, v, rfl, -, h⟩
  · exact h.fed k a hk ha
  · refine h.fed k a ?_ ha
    rw [Op.effects, List.mem_append] at hk
    exact hk.resolve_right (by simp)

theorem Taken.cached (h : Taken s s' (.op o)) {k : StudyCall} (hk : .call k ∈ o.effects)
    (hhandle : k.handle ≠ none) : k.study.cached = true := by
  rcases h with h | ⟨bank, id, v, rfl, -, h⟩
  · exact h.cached k hk hhandle
  · refine h.cached k ?_ hhandle
    rw [Op.effects, List.mem_append] at hk
    exact hk.resolve_right (by simp)

/-- An instruction writes what is new or what it assigns to. -/
theorem Taken.written (h : Taken s s' (.op o)) {bank : Bank} {id : Nat}
    (hw : .set bank id ∈ o.effects) :
    s.taken bank ≤ id ∧ id < s'.taken bank ∨
      s.Assignable bank id ∧ o.assigned? = some (bank, id) := by
  rcases h with h | ⟨bank', id', v, rfl, hassignable, h⟩
  · exact .inl (h.fresh bank id hw)
  · rw [Op.effects, List.mem_append] at hw
    rcases hw with hw | hw
    · exact .inl (h.fresh bank id hw)
    · simp only [List.mem_singleton, Effect.set.injEq] at hw
      obtain ⟨rfl, rfl⟩ := hw
      exact .inr ⟨hassignable, rfl⟩

theorem Taken.fedFirst (h : Taken s s' (.op o))
    (hsettled : ∀ e ∈ o.effects, e.bareSource?.isSome → o.assigned? ≠ e.bareSource?) :
    FedFirst o.effects := by
  rcases h with h | ⟨bank, id, v, rfl, hassignable, h⟩
  · exact h.fedFirst
  · refine List.pairwise_append.2 ⟨h.fedFirst, List.pairwise_singleton _ _, ?_⟩
    intro e he w hw hfeeds
    rw [List.mem_singleton] at hw
    subst hw
    have hvar := Effect.bareSource?_of_feeds hfeeds hassignable.bank_ne
    exact hsettled e (List.mem_append_left _ he) (hvar ▸ rfl) hvar.symm

theorem Laid.range (h : Laid s os s') :
    s.handles ≤ s'.handles ∧ (∀ b, s.taken b ≤ s'.taken b) ∧
      (os.flatMap Op.effects).filterMap Effect.handle? =
        List.range' s.handles (s'.handles - s.handles) := by
  induction h with
  | nil hs => exact ⟨Nat.le_refl _, fun _ => Nat.le_refl _, by simp⟩
  | cons ho _ ih =>
    obtain ⟨hle₁, ht₁, hr₁⟩ := ho.range
    obtain ⟨hle₂, ht₂, hr₂⟩ := ih
    refine ⟨Nat.le_trans hle₁ hle₂, fun b => Nat.le_trans (ht₁ b) (ht₂ b), ?_⟩
    rw [List.flatMap_cons, List.filterMap_append, hr₁, hr₂, Allocated.range'_append hle₁ hle₂]

theorem Laid.computed (h : Laid s os s') :
    (os.flatMap Op.effects).filterMap Effect.computed? =
      List.range' (s.taken .computed) (s'.taken .computed - s.taken .computed) := by
  induction h with
  | nil hs => simp
  | cons ho hos ih =>
    rw [List.flatMap_cons, List.filterMap_append, ho.computed, ih,
      Allocated.range'_append (ho.range.2.1 _) (hos.range.2.1 _)]

theorem Laid.names (h : Laid s os s') : s.names <+: s'.names := by
  induction h with
  | nil hs => exact List.prefix_rfl
  | cons ho _ ih => exact ho.names.trans ih

theorem Resolved.sound {ss : List Statement} {s s' : Scope} {os : List Op} {r : Option Result}
    (hs : s.Sound) (h : Resolved s ss os r s') : s'.Sound := by
  obtain ⟨s₁, -, hresult⟩ := h.laid hs
  exact hresult.sound

theorem Resolved.taken_le {ss : List Statement} {s s' : Scope} {os : List Op} {r : Option Result}
    (hs : s.Sound) (h : Resolved s ss os r s') (bank : Bank) : s.taken bank ≤ s'.taken bank := by
  obtain ⟨s₁, hlaid, hresult⟩ := h.laid hs
  exact Nat.le_trans (hlaid.range.2.1 bank) (hresult.taken_le bank)

/-- Names that have been declared stay. -/
theorem Resolved.names {ss : List Statement} {s s' : Scope} {os : List Op} {r : Option Result}
    (hs : s.Sound) (h : Resolved s ss os r s') : s.names <+: s'.names := by
  obtain ⟨s₁, hlaid, hresult⟩ := h.laid hs
  exact hlaid.names.trans hresult.names

theorem Laid.fed (h : Laid s os s') {k : StudyCall} {a : Bank × Nat}
    (hk : .call k ∈ os.flatMap Op.effects) (ha : k.feed? = some a) : a.2 < s'.taken a.1 := by
  induction h with
  | nil hs => nomatch hk
  | cons ho hos ih =>
    rcases List.mem_append.1 (List.flatMap_cons ▸ hk) with hk | hk
    · exact Nat.lt_of_lt_of_le (ho.fed hk ha) (hos.range.2.1 _)
    · exact ih hk

theorem Laid.cached (h : Laid s os s') {k : StudyCall} (hk : .call k ∈ os.flatMap Op.effects)
    (hhandle : k.handle ≠ none) : k.study.cached = true := by
  induction h with
  | nil hs => nomatch hk
  | cons ho hos ih => exact (List.mem_append.1 (List.flatMap_cons ▸ hk)).elim (ho.cached · hhandle) ih

theorem Laid.written (h : Laid s os s') {bank : Bank} {id : Nat}
    (hw : .set bank id ∈ os.flatMap Op.effects) :
    s.taken bank ≤ id ∨
      (bank ≠ .computed ∧ bank ≠ .constants) ∧ ∃ o ∈ os, o.assigned? = some (bank, id) := by
  induction h with
  | nil hs => nomatch hw
  | cons ho hos ih =>
    rcases List.mem_append.1 (List.flatMap_cons ▸ hw) with hw | hw
    · rcases ho.written hw with h | ⟨h, hassigned⟩
      · exact .inl h.1
      · exact .inr ⟨⟨h.bank_ne, h.not_constant⟩, _, .head _, hassigned⟩
    · rcases ih hw with h | ⟨hbank, o, ho', h⟩
      · exact .inl (Nat.le_trans (ho.range.2.1 _) h)
      · exact .inr ⟨hbank, o, .tail _ ho', h⟩

/-- What has been written has been taken. -/
theorem Laid.taken (h : Laid s os s') {bank : Bank} {id : Nat}
    (hw : .set bank id ∈ os.flatMap Op.effects) : id < s'.taken bank := by
  induction h with
  | nil hs => nomatch hw
  | cons ho hos ih =>
    rcases List.mem_append.1 (List.flatMap_cons ▸ hw) with hw | hw
    · rcases ho.written hw with h | ⟨h, -⟩
      · exact Nat.lt_of_lt_of_le h.2 (hos.range.2.1 _)
      · exact Nat.lt_of_lt_of_le h.taken (Nat.le_trans (ho.range.2.1 _) (hos.range.2.1 _))
    · exact ih hw

theorem Laid.fedFirst (h : Laid s os s') (hsettled : Settled os) :
    FedFirst (os.flatMap Op.effects) := by
  induction h with
  | nil hs => exact .nil
  | @cons s s₁ s' o os ho hos ih =>
    rw [List.flatMap_cons]
    refine List.pairwise_append.2 ⟨?_, ih hsettled.2, ?_⟩
    · exact ho.fedFirst fun e he hvar => hsettled.1 e he hvar o (.head _)
    intro e he w hw hfeeds
    obtain ⟨k, bank, id, rfl, rfl, hfeed⟩ := hfeeds.cases
    -- what a later instruction writes is new, or it assigns to it
    rcases hos.written hw with hnew | ⟨⟨hbank, -⟩, o', ho', hassigned⟩
    · exact Nat.not_lt.2 hnew (ho.fed he hfeed)
    · have hvar := Effect.bareSource?_of_feeds hfeeds hbank
      exact hsettled.1 _ he (hvar ▸ rfl) o' (.tail _ ho') (hassigned.trans hvar.symm)

end

end Resolve

theorem compile_ok {source : String} {p : Program} (h : compile source = .ok p) :
    ∃ ss, parse source = .ok ss ∧ compileStatements ss = .ok p := by
  unfold compile at h
  cases hparse : parse source with
  | error e => rw [hparse] at h; cases h
  | ok ss =>
    rw [hparse] at h
    dsimp only at h
    refine ⟨ss, rfl, ?_⟩
    cases hp : compileStatements ss with
    | error e => rw [hp] at h; cases h
    | ok p' => rw [hp] at h; cases h; rfl

/-- How a program comes from statements. -/
theorem compileStatements_ok_iff {ss : List Statement} {p : Program} :
    compileStatements ss = .ok p ↔ ∃ s : Scope, Resolve.Resolved .empty ss p.ops p.result s ∧
      p.summary = ⟨ss.length, s.constants + s.states + s.bindings, s.computed, s.handles⟩ := by
  unfold compileStatements
  constructor
  · intro h
    cases hr : (Resolve.statements ss).run .empty with
    | error e => rw [hr] at h; cases h
    | ok r => rw [hr] at h; cases h; exact ⟨r.2, Resolve.resolved_of_statements hr, rfl⟩
  · rintro ⟨s, hresolved, hsummary⟩
    have hr : (Resolve.statements ss).run .empty = .ok ((p.ops, p.result), s) :=
      Resolve.statements_of_resolved hresolved
    rw [hr]
    obtain ⟨ops, result, summary⟩ := p
    obtain rfl := hsummary
    rfl

/-- How a compiled program was resolved. -/
theorem compileStatements_laid {ss : List Statement} {p : Program}
    (h : compileStatements ss = .ok p) :
    ∃ s s' : Scope, Resolve.Laid .empty p.ops s ∧
      Allocated s s' (p.result.elim [] Result.effects) ∧ p.summary.cacheSites = s'.handles ∧
      p.summary.params = s'.taken .computed := by
  obtain ⟨s', hresolved, hsummary⟩ := compileStatements_ok_iff.1 h
  obtain ⟨s, hlaid, hresult⟩ := hresolved.laid Scope.sound_empty
  exact ⟨s, s', hlaid, hresult, by rw [hsummary], by rw [hsummary]; rfl⟩

/-- **The handles** of a compiled program are numbered from zero, in the order of the calls. -/
theorem compileStatements_handles {ss : List Statement} {p : Program}
    (h : compileStatements ss = .ok p) :
    p.effects.filterMap Effect.handle? = List.range p.summary.cacheSites := by
  obtain ⟨s, s', hlaid, hresult, hsites, -⟩ := compileStatements_laid h
  obtain ⟨hle, -, hrange⟩ := hlaid.range
  rw [Program.effects, List.filterMap_append, hrange, hresult.handles,
    Allocated.range'_append hle hresult.handles_le, hsites, List.range_eq_range']
  rfl

/-- **The computed series** of a compiled program are numbered from zero, in the order in which they
may be written. -/
theorem compileStatements_computed {ss : List Statement} {p : Program}
    (h : compileStatements ss = .ok p) :
    p.effects.filterMap Effect.computed? = List.range p.summary.params := by
  obtain ⟨s, s', hlaid, hresult, -, hparams⟩ := compileStatements_laid h
  rw [Program.effects, List.filterMap_append, hlaid.computed, hresult.computed,
    Allocated.range'_append (hlaid.range.2.1 _) (hresult.taken_le _), hparams,
    List.range_eq_range']
  rfl

/-- A call with a handle is of an indicator that goes through the cache. -/
theorem compileStatements_cached {ss : List Statement} {p : Program}
    (h : compileStatements ss = .ok p) {k : StudyCall} (hk : .call k ∈ p.effects)
    (hhandle : k.handle ≠ none) : k.study.cached = true := by
  obtain ⟨s, s', hlaid, hresult, -⟩ := compileStatements_laid h
  exact (List.mem_append.1 hk).elim (hlaid.cached · hhandle) (hresult.cached k · hhandle)

theorem compile_handles {source : String} {p : Program} (h : compile source = .ok p) :
    p.effects.filterMap Effect.handle? = List.range p.summary.cacheSites := by
  obtain ⟨ss, -, hp⟩ := compile_ok h
  exact compileStatements_handles hp

theorem compile_computed {source : String} {p : Program} (h : compile source = .ok p) :
    p.effects.filterMap Effect.computed? = List.range p.summary.params := by
  obtain ⟨ss, -, hp⟩ := compile_ok h
  exact compileStatements_computed hp

/-- **What cached calls consume** is written before them, if the program is settled. -/
theorem compile_fedFirst {source : String} {p : Program} (h : compile source = .ok p)
    (hsettled : Settled p.ops) : FedFirst p.effects := by
  obtain ⟨ss, -, hp⟩ := compile_ok h
  obtain ⟨s, s', hlaid, hresult, -⟩ := compileStatements_laid hp
  refine List.pairwise_append.2 ⟨hlaid.fedFirst hsettled, hresult.fedFirst, ?_⟩
  intro e he w hw hfeeds
  obtain ⟨k, bank, id, rfl, rfl, hfeed⟩ := hfeeds.cases
  exact Nat.not_lt.2 (hresult.fresh bank id hw).1 (hlaid.fed he hfeed)

end BarScript
