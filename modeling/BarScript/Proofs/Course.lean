import BarScript.Proofs.Variable

/-!
# The course of a step

A step that succeeds runs through the effects of its program in their order: it sets a slot, makes a
call, or leaves an effect out. Calls that use the cache stand in `Steady` positions if every one of
them is made whenever what it stands in is evaluated; then a step leaves out nothing but the writes of
slots that it has no need to set (`Program.course`).
-/

namespace BarScript

/-- None of the effects uses the cache. -/
def Uncached (es : List Effect) : Prop := ∀ e ∈ es, e.handle? = none

instance (es : List Effect) : Decidable (Uncached es) :=
  inferInstanceAs (Decidable (∀ e ∈ es, e.handle? = none))

theorem uncached_append {es es' : List Effect} :
    Uncached (es ++ es') ↔ Uncached es ∧ Uncached es' := List.forall_mem_append

/-- The right operand is evaluated only if the left one does not decide. -/
def BinaryOp.lazy : BinaryOp → Bool
  | and | or => true
  | _ => false

/-! ## Steady positions -/

mutual

/-- Cached calls stand where they are made whenever the expression is evaluated, as long as no offset
is unavailable. -/
def Node.Steady : Node → Prop
  | .number _ => True
  | .flag _ => True
  | .na => True
  | .read source offset => Node.OffsetSteady offset ∧ source.Steady
  | .clock _ offset => Node.OffsetSteady offset
  | .barIndex => True
  | .unary _ operand => operand.Steady
  | .binary op left right =>
    left.Steady ∧ right.Steady ∧ (op.lazy = true → Uncached right.effects)
  | .ternary cond yes no =>
    cond.Steady ∧ (yes.Steady ∧ no.Steady) ∧ Uncached (yes.effects ++ no.effects)
  | .study ⟨_, args, _⟩ => Bound.AllSteady args
  | .math _ args => Node.AllSteady args
  | .isNa operand => operand.Steady
  | .nz operand replacement =>
    operand.Steady ∧ replacement.Steady ∧ Uncached replacement.effects

def Node.OffsetSteady : Option Node → Prop
  | none => True
  | some n => n.Steady

def Source.Steady : Source → Prop
  | .computed _ value => value.Steady
  | .price _ => True
  | .slot _ _ => True

def Bound.AllSteady : List Bound → Prop
  | [] => True
  | b :: bs => b.Steady ∧ Bound.AllSteady bs

def Bound.Steady : Bound → Prop
  | .series s => s.Steady
  | .number n => n.Steady
  | .absent => True

def Node.AllSteady : List Node → Prop
  | [] => True
  | n :: ns => n.Steady ∧ Node.AllSteady ns

end

/-- No channel beyond the fourth is evaluated. -/
def OptionNode.Steady : OptionNode → Prop
  | text _ => True
  | flag _ => True
  | number n => n.Steady
  | rgb channels =>
    Node.AllSteady (channels.take 4) ∧ Uncached (Node.allEffects (channels.drop 4))
  | newColor base alpha => base.Steady ∧ Node.OffsetSteady alpha

def OptionsSteady (options : OptionNodes) : Prop := ∀ o ∈ options, o.2.Steady

def Drawing.Steady : Drawing → Prop
  | plot value _ options _ => value.Steady ∧ OptionsSteady options
  | candle opening high low close _ options _ =>
    opening.Steady ∧ high.Steady ∧ low.Steady ∧ close.Steady ∧ OptionsSteady options
  | fill _ _ options => OptionsSteady options
  | hline price _ options => price.Steady ∧ OptionsSteady options
  | indicator _ _ _ => True

/-- An initialiser is evaluated once, so no cached call may stand in it. -/
def Op.Steady : Op → Prop
  | set _ _ value => value.Steady
  | init _ _ value => value.Steady ∧ Uncached value.effects
  | unpack call _ => Bound.AllSteady call.args
  | eval n => n.Steady
  | draw d => d.Steady

def Result.Steady : Result → Prop
  | single n => n.Steady
  | named fields => ∀ f ∈ fields, f.2.Steady

/-- Every cached call stands in a statement that is executed at every bar, and there in a position
that is evaluated at every bar, as long as no offset is unavailable. -/
structure Program.Steady (p : Program) : Prop where
  ops : ∀ o ∈ p.ops, o.Steady
  result : ∀ r, p.result = some r → r.Steady

/-! ## Courses -/

variable {α : Type} [Arith α]

/-- What a call finds when it is made: literal arguments have their own numbers, and the computed
series among the arguments have a value. -/
structure StudyCallOf.Supplied (k : StudyCall) (nums : List α) (c : Context α) : Prop where
  literal : ∀ i l, k.args[i]? = some (.number (.number l)) → nums.getD i Arith.nan = l.value
  written : ∀ id n, .series (.computed id n) ∈ k.args → 0 < (c.stores.slot (.computed, id)).size

/-- A way through effects from one context to another. A cached call is not left out, and neither is
the first write of a variable. -/
inductive Course : List Effect → Context α → Context α → Prop
  | done (c : Context α) : Course [] c c
  | skip {e : Effect} {es : List Effect} {c c' : Context α} (hcall : e.handle? = none)
      (hslot : ∀ a, e.slot? = some a → a.1 = .computed ∨ 0 < (c.stores.slot a).size)
      (rest : Course es c c') : Course (e :: es) c c'
  | set {bank : Bank} {id : Nat} {es : List Effect} {c c' : Context α} (x : α)
      (rest : Course es { c with stores := c.stores.set bank id x } c') :
      Course (.set bank id :: es) c c'
  | call {k : StudyCall} {nums : List α} {es : List Effect} {c c' : Context α}
      (hk : k.Supplied nums c) (rest : Course es (c.absorb (k.perform nums c).2) c') :
      Course (.call k :: es) c c'
  | draw {es : List Effect} {c c' : Context α} (o : Outputs α)
      (rest : Course es { c with outputs := o } c') : Course es c c'

namespace Course

variable {es es' : List Effect} {c c₁ c' : Context α}

theorem append (h : Course es c c₁) (h' : Course es' c₁ c') : Course (es ++ es') c c' := by
  induction h with
  | done _ => exact h'
  | skip hcall hslot _ ih => exact .skip hcall hslot (ih h')
  | set x _ ih => exact .set x (ih h')
  | call hk _ ih => exact .call hk (ih h')
  | draw o _ ih => exact .draw o (ih h')

/-- Without cached calls, and without variables to set, there is nothing that must be done. -/
theorem idle (hes : Uncached es) (hset : ∀ bank id, .set bank id ∈ es → bank = .computed)
    (c : Context α) : Course es c c := by
  induction es with
  | nil => exact .done c
  | cons e es ih =>
    refine .skip (hes e (.head _)) (fun a ha => .inl ?_)
      (ih (fun e he => hes e (.tail _ he)) fun bank id h => hset bank id (.tail _ h))
    cases e with
    | call k => cases ha
    | set bank id => cases ha; exact hset bank id (.head _)

theorem idle_node {n : Node} (h : Uncached n.effects) (c : Context α) : Course n.effects c c :=
  idle h (fun _ _ => n.set_computed) c

theorem idle_source {s : Source} (h : Uncached s.effects) (c : Context α) : Course s.effects c c :=
  idle h (fun _ _ => s.set_computed) c

/-- The bindings of a list are set to values, as many as there are. -/
theorem bindings {targets : List Nat} {values : List α} (h : targets.length ≤ values.length)
    (c : Context α) : Course (targets.map (.set .bindings ·)) c
      { c with stores := (targets.zip values).foldl (fun s t => s.set .bindings t.1 t.2) c.stores } := by
  induction targets generalizing values c with
  | nil => exact .done c
  | cons id targets ih =>
    cases values with
    | nil => simp at h
    | cons x values => exact .set x (ih (Nat.le_of_succ_le_succ h) _)

end Course

/-! ## Computations that take a course -/

/-- No cached call stands in a series that is left alone. -/
def Heeded (tr : List (Event α)) : Prop := ∀ s, .skipped s ∈ tr → Uncached s.effects

/-- The series that is left alone. -/
def Event.skipped? : Event α → Option Source
  | wrote _ _ _ => none
  | saw _ _ => none
  | skipped s => some s

omit [Arith α] in
theorem mem_skipped {s : Source} {tr : List (Event α)} :
    s ∈ tr.filterMap Event.skipped? ↔ .skipped s ∈ tr := by
  rw [List.mem_filterMap]
  constructor
  · rintro ⟨e, he, hs⟩
    cases e <;> cases hs
    exact he
  · exact fun h => ⟨_, h, rfl⟩

instance (tr : List (Event α)) : Decidable (Heeded tr) :=
  decidable_of_iff (∀ s ∈ tr.filterMap Event.skipped?, Uncached s.effects)
    (forall_congr' fun _ => by rw [mem_skipped])

omit [Arith α] in
theorem heeded_append {tr tr' : List (Event α)} : Heeded (tr ++ tr') ↔ Heeded tr ∧ Heeded tr' := by
  simp only [Heeded, List.mem_append, or_imp, forall_and]

/-- If the computation succeeds, it takes a course through the effects `es`, provided that its
cached calls are steady (`P`) and no one of them stands in a series that is left alone. -/
def Takes {β : Type} (P : Prop) (es : List Effect) (m : EvalM α β)
    (tr : Context α → List (Event α)) : Prop :=
  P → ∀ {c x c'}, m c = .ok x c' → Heeded (tr c) → Course es c c'

namespace Takes

variable {β γ : Type} {P Q : Prop} {es es' : List Effect} {m : EvalM α β} {f : β → EvalM α γ}
variable {tr : Context α → List (Event α)}

theorem pure (x : β) : Takes P [] (pure x : EvalM α β) fun _ => [] := by
  rintro - c _ _ ⟨⟩ -
  exact .done c

/-- **One computation after another** takes the course of the one and then that of the other. -/
theorem bind {tr' : β → Context α → List (Event α)} (hm : Takes P es m tr)
    (hf : ∀ x, Takes Q es' (f x) (tr' x)) :
    Takes (P ∧ Q) (es ++ es') (m >>= f) fun c => tr c ++ onSuccess m c tr' := by
  rintro ⟨hP, hQ⟩ c y c' hy htr
  obtain ⟨x, c₁, hx, hy⟩ := eval_bind_ok hy
  obtain ⟨hfirst, hnext⟩ := heeded_append.1 htr
  rw [onSuccess_ok hx] at hnext
  exact (hm hP hx hfirst).append (hf x hQ hy hnext)

/-- What comes after takes no course. -/
theorem map (hm : Takes P es m tr) (hf : ∀ x {c y c'}, f x c = .ok y c' → c' = c) :
    Takes P es (m >>= f) tr := by
  intro hP c y c' hy htr
  obtain ⟨x, c₁, hx, hy⟩ := eval_bind_ok hy
  exact hf x hy ▸ hm hP hx htr

/-- Readings leave no series alone. -/
theorem withSights (hm : Takes P es m tr) (ss : List Source) :
    Takes P es m fun c => tr c ++ onSuccess m c fun _ => sights ss := fun hP _ _ _ hx htr =>
  hm hP hx (heeded_append.1 htr).1

theorem setSlot (bank : Bank) (id : Nat) (x : α) :
    Takes P [.set bank id] (setSlot bank id x) fun _ => [.wrote bank id x] := by
  rintro - c _ _ ⟨⟩ -
  exact .set x (.done _)

/-- A call is made when its arguments have been evaluated. -/
theorem perform (k : StudyCall) {m : EvalM α (List α)} {tr : Context α → List (Event α)}
    (hm : Takes P es m tr) (hk : ∀ {c nums c'}, m c = .ok nums c' → k.Supplied nums c')
    (f : List α → β) :
    Takes P (es ++ [.call k]) (do
      let nums ← m
      let ctx ← get
      match k.perform nums ctx with
      | (values, t) => do
        set (ctx.absorb t)
        Pure.pure (f values)) tr := by
  intro hP c y c' hy htr
  obtain ⟨nums, c₁, hnums, hy⟩ := eval_bind_ok hy
  cases hy
  exact (hm hP hnums htr).append (.call (hk hnums) (.done _))

/-! ## Arguments of calls -/

theorem literal_bounds {bs : List Bound} {c c' : Context α} {nums : List α}
    (h : Bound.evalAll bs c = .ok nums c') {i : Nat} {l : Literal}
    (hi : bs[i]? = some (.number (.number l))) : nums[i]? = some l.value := by
  induction bs generalizing c c' nums i with
  | nil => cases hi
  | cons b bs ih =>
    rw [Bound.evalAll] at h
    obtain ⟨x, c₁, hx, h⟩ := eval_bind_ok h
    obtain ⟨xs, c₂, hxs, h⟩ := eval_bind_ok h
    cases h
    cases i with
    | zero =>
      cases hi
      rw [Bound.evalNumber, Node.eval] at hx
      cases hx
      rfl
    | succ i => exact ih hxs hi

omit [Arith α] in
/-- A slot that has been written has a value. -/
theorem size_after_pos {st : Stores α} {tr : List (Event α)} {a : Bank × Nat} {y : α}
    (h : .wrote a.1 a.2 y ∈ tr) : 0 < ((st.after tr).slot a).size := by
  have hgiven : given a tr ≠ [] := List.ne_nil_of_mem (mem_given.2 h)
  rw [Stores.slot_after, ← List.dropLast_concat_getLast hgiven, List.foldl_append, List.foldl_cons,
    List.foldl_nil, ← Series.length_toList, Series.toList_setCurrent, List.length_append]
  exact Nat.succ_pos _

/-- Once the arguments have been evaluated, the call finds what it needs. -/
theorem supplied {k : StudyCall} {c c' : Context α} {nums : List α}
    (h : Bound.evalAll k.args c = .ok nums c') : k.Supplied nums c' where
  literal i l hi := by rw [List.getD_eq_getElem?_getD, literal_bounds h hi, Option.getD_some]
  written id n hmem := by
    obtain ⟨y, hy⟩ := Faithful.written_bounds h hmem
    rw [(Faithful.bounds k.args).stores h]
    exact size_after_pos (a := (.computed, id)) hy

/-! ## Expressions -/

mutual

theorem node (n : Node) : Takes n.Steady n.effects n.eval (n.trace : Context α → _) := by
  cases n with
  | number l => rw [Node.eval]; exact .pure _
  | flag b => rw [Node.eval]; exact .pure _
  | na => rw [Node.eval]; exact .pure _
  | read source o =>
    rw [Node.eval, Node.effects]
    refine (offset o).bind fun k => ?_
    cases k with
    | none =>
      rintro - c _ _ ⟨⟩ htr
      exact .idle_source (htr source (.head _)) c
    | some k =>
      exact ((prepare source).withSights [source]).map fun _ {_ _ _} h => by cases h; rfl
  | clock k o =>
    rw [Node.eval, Node.effects]
    refine (offset o).map fun k c y c' h => ?_
    cases k <;> cases h <;> rfl
  | barIndex =>
    rw [Node.eval]
    rintro - c _ _ ⟨⟩ -
    exact .done c
  | unary op operand =>
    rw [Node.eval, Node.effects]
    exact (node operand).map fun _ {_ _ _} h => by cases h; rfl
  | binary op left right =>
    rw [Node.eval, Node.effects]
    refine (node left).bind fun a => ?_
    have evaluated := fun f : α → α => (node right).map (f := fun b => Pure.pure (f b))
      fun _ {_ _ _} h => by cases h; rfl
    rintro ⟨hright, huncached⟩ c x c' hx htr
    cases op with
    | and =>
      cases ha : Arith.truth a
      · rw [ha] at hx
        cases hx
        exact .idle_node (huncached rfl) c
      · simp only [BinaryOp.decided, ha] at hx htr
        exact evaluated _ hright hx htr
    | or =>
      cases ha : Arith.truth a
      · simp only [BinaryOp.decided, ha] at hx htr
        exact evaluated _ hright hx htr
      · rw [ha] at hx
        cases hx
        exact .idle_node (huncached rfl) c
    | _ => exact evaluated _ hright hx htr
  | ternary cond yes no =>
    rw [Node.eval, Node.effects]
    refine (node cond).bind fun a => ?_
    rintro ⟨⟨hyes, hno⟩, huncached⟩ c x c' hx htr
    obtain ⟨hyes', hno'⟩ := uncached_append.1 huncached
    -- the branch that is not taken has nothing that must be done
    cases ha : Arith.truth a
    · simp only [ha] at hx htr
      exact (Course.idle_node hyes' c).append (node no hno hx htr)
    · simp only [ha] at hx htr
      exact (node yes hyes hx htr).append (.idle_node hno' c')
  | study k =>
    obtain ⟨study, args, handle⟩ := k
    rw [Node.eval, Node.effects]
    exact perform ⟨study, args, handle⟩ ((bounds args).withSights _)
      (supplied (k := ⟨study, args, handle⟩)) (List.headD · Arith.nan)
  | math f args =>
    rw [Node.eval, Node.effects]
    exact (nodes args).map fun _ {_ _ _} h => by cases h; rfl
  | isNa operand =>
    rw [Node.eval, Node.effects]
    exact (node operand).map fun _ {_ _ _} h => by cases h; rfl
  | nz operand replacement =>
    rw [Node.eval, Node.effects]
    refine (node operand).bind fun v => ?_
    rintro ⟨hsteady, huncached⟩ c x c' hx htr
    cases hv : Arith.isNaN v
    · rw [hv] at hx
      cases hx
      exact .idle_node huncached c
    · simp only [hv] at hx htr
      exact node replacement hsteady hx htr

theorem offset (o : Option Node) : Takes (Node.OffsetSteady o) (Node.offsetEffects o)
    (Node.evalOffset o) (Node.offsetTrace o : Context α → _) := by
  cases o with
  | none => rw [Node.evalOffset]; exact .pure _
  | some n =>
    rw [Node.evalOffset, Node.offsetEffects]
    refine (node n).map fun v {c k c'} h => ?_
    obtain ⟨ctx, c₁, hget, h⟩ := eval_bind_ok h
    cases hget
    cases hk : BarScript.historyOffset c.bar v with
    | ok k => rw [hk] at h; cases h; rfl
    | error failure => rw [hk] at h; cases h

theorem prepare (s : Source) :
    Takes s.Steady s.effects s.prepare (s.trace : Context α → _) := by
  cases s with
  | price p => rw [Source.prepare]; exact .pure _
  | slot bank id => rw [Source.prepare]; exact .pure _
  | computed id value =>
    rw [Source.prepare, Source.effects]
    exact fun h => ((node value).bind fun v => setSlot (P := True) .computed id v) ⟨h, trivial⟩

theorem bounds (bs : List Bound) : Takes (Bound.AllSteady bs) (Bound.allEffects bs)
    (Bound.evalAll bs) (Bound.traceAll bs : Context α → _) := by
  cases bs with
  | nil => rw [Bound.evalAll]; exact .pure _
  | cons b bs =>
    rw [Bound.evalAll, Bound.allEffects]
    exact (bound b).bind fun v => (bounds bs).map fun _ {_ _ _} h => by cases h; rfl

theorem bound (b : Bound) :
    Takes b.Steady b.effects b.evalNumber (b.trace : Context α → _) := by
  cases b with
  | series s =>
    rw [Bound.evalNumber, Bound.effects]
    exact (prepare s).map fun _ {_ _ _} h => by cases h; rfl
  | number n =>
    rw [Bound.evalNumber, Bound.effects]
    exact node n
  | absent => rw [Bound.evalNumber]; exact .pure _

theorem nodes (ns : List Node) : Takes (Node.AllSteady ns) (Node.allEffects ns)
    (Node.evalAll ns) (Node.traceAll ns : Context α → _) := by
  cases ns with
  | nil => rw [Node.evalAll]; exact .pure _
  | cons n ns =>
    rw [Node.evalAll, Node.allEffects]
    exact (node n).bind fun v => (nodes ns).map fun _ {_ _ _} h => by cases h; rfl

end

/-! ## Instructions -/

theorem call (k : StudyCall) :
    Takes (Bound.AllSteady k.args) k.effects k.eval (k.trace : Context α → _) :=
  perform k ((bounds k.args).withSights _) supplied id

theorem option (o : OptionNode) : Takes o.Steady o.effects o.eval (o.trace : Context α → _) := by
  induction o with
  | text s => rw [OptionNode.eval]; exact .pure _
  | flag b => rw [OptionNode.eval]; exact .pure _
  | number n =>
    rw [OptionNode.eval, OptionNode.effects]
    exact (node n).map fun _ {_ _ _} h => by cases h; rfl
  | rgb channels =>
    rw [OptionNode.eval, OptionNode.effects]
    rintro ⟨hsteady, huncached⟩ c x c' hx htr
    obtain ⟨xs, c₁, hxs, hx⟩ := eval_bind_ok hx
    cases hx
    have hsplit : Node.allEffects channels =
        Node.allEffects (channels.take 4) ++ Node.allEffects (channels.drop 4) := by
      rw [Node.allEffects_eq, Node.allEffects_eq, Node.allEffects_eq, ← List.flatMap_append,
        List.take_append_drop]
    rw [hsplit]
    exact (nodes (channels.take 4) hsteady hxs htr).append
      (.idle huncached (fun _ _ => Node.all_set_computed _) c')
  | newColor base alpha ih =>
    rw [OptionNode.eval, OptionNode.effects]
    refine ih.bind fun b => ?_
    cases alpha with
    | none =>
      rintro - c _ _ ⟨⟩ -
      exact .done c
    | some n => exact (node n).map fun v {_ _ _} h => by cases h; rfl

theorem options (os : OptionNodes) (given : Options α) :
    Takes (OptionsSteady os) (optionEffects os) (evalOptions os given) (optionTrace os) := by
  induction os generalizing given with
  | nil => exact .pure _
  | cons o os ih =>
    rw [evalOptions, optionEffects, List.flatMap_cons]
    exact fun h => ((option o.2).bind fun v => ih _) (List.forall_mem_cons.1 h)

theorem drawing (d : Drawing) (plotted : Plotted α) :
    Takes d.Steady d.effects (d.perform plotted) d.trace := by
  have drawn (f : Options α → Outputs α → Int → Outputs α) (os : OptionNodes) (x : Plotted α) :
      Takes (OptionsSteady os) (optionEffects os) (do
        let options ← evalOptions os ∅
        drawAt (f options)
        return x) (optionTrace os) := by
    intro hsteady c y c' hy htr
    obtain ⟨options, c₁, hoptions, hy⟩ := eval_bind_ok hy
    cases hy
    have hcourse := (Takes.options os ∅ hsteady hoptions htr).append
      (.draw (f options c₁.outputs c₁.now) (.done _))
    rwa [List.append_nil] at hcourse
  cases d with
  | plot value title os char =>
    rw [Drawing.effects]
    exact (node value).bind fun v => drawn _ os _
  | candle opening high low close title os bar =>
    rw [Drawing.effects]
    exact (node opening).bind fun a => (node high).bind fun b => (node low).bind fun c =>
      (node close).bind fun d => drawn _ os _
  | fill plot1 plot2 os => exact drawn _ os _
  | hline price title os =>
    rw [Drawing.effects]
    exact (node price).bind fun v => drawn _ os _
  | indicator title shortTitle overlay =>
    rintro - c _ _ ⟨⟩ -
    exact .draw (c.outputs.indicator title shortTitle overlay) (.done _)

end Takes

/-- There are as many targets as values. -/
def Op.Filled : Op → Prop
  | unpack call targets => targets.length = call.arity
  | _ => True

namespace Takes

/-- An assignment takes the course of its value, and then sets the slot. -/
theorem assign (bank : Bank) (id : Nat) (value : Node) (plotted : Plotted α) :
    Takes (value.Steady ∧ True) (value.effects ++ [.set bank id]) (do
      let v ← value.eval
      BarScript.setSlot bank id v
      return plotted : EvalM α (Plotted α)) fun c => value.trace c ++ onSuccess value.eval c fun v _ =>
        [.wrote bank id v] :=
  (node value).bind fun v => (setSlot bank id v).map fun _ {_ _ _} h => by cases h; rfl

theorem op (o : Op) (plotted : Plotted α) :
    Takes (o.Steady ∧ o.Filled) o.effects (o.exec plotted) o.trace := by
  rintro ⟨hsteady, hfilled⟩
  cases o with
  | set bank id value =>
    exact assign bank id value plotted ⟨hsteady, trivial⟩
  | init bank id value =>
    intro c x c' hx htr
    obtain ⟨hvalue, huncached⟩ := hsteady
    rw [Op.exec_init] at hx
    by_cases hempty : (c.stores.slot (bank, id)).isEmpty = true
    · rw [if_pos hempty] at hx
      have htrace : (Op.init bank id value).trace c =
          value.trace c ++ onSuccess value.eval c fun v _ => [.wrote bank id v] := if_pos hempty
      rw [htrace] at htr
      exact assign bank id value plotted ⟨hvalue, trivial⟩ hx htr
    · rw [if_neg hempty] at hx
      cases hx
      refine (Course.idle_node huncached c).append (.skip rfl ?_ (.done c))
      rintro _ ⟨⟩
      refine .inr (Nat.pos_of_ne_zero fun hsize => hempty ?_)
      rwa [Series.isEmpty_iff_toList, ← List.length_eq_zero_iff, Series.length_toList]
  | unpack k targets =>
    intro c x c' hx htr
    obtain ⟨values, c₁, hvalues, hx⟩ := eval_bind_ok hx
    cases hx
    have hlength : targets.length = values.length :=
      hfilled.trans (StudyCallOf.length_eval hvalues).symm
    exact (call k hsteady hvalues (heeded_append.1 htr).1).append (.bindings hlength.le c₁)
  | eval n => exact (node n).map (fun _ {_ _ _} h => by cases h; rfl) hsteady
  | draw d => exact drawing d plotted hsteady

theorem ops (os : List Op) (plotted : Plotted α) :
    Takes (∀ o ∈ os, o.Steady ∧ o.Filled) (os.flatMap Op.effects) (Op.execAll os plotted)
      (Op.traceAll os plotted) := by
  induction os generalizing plotted with
  | nil => exact .pure _
  | cons o os ih =>
    rw [List.flatMap_cons]
    exact fun h => ((op o plotted).bind fun p => ih p) (List.forall_mem_cons.1 h)

theorem fields (fs : List (String × Node)) :
    Takes (∀ f ∈ fs, f.2.Steady) (fs.flatMap (·.2.effects)) (evalFields fs)
      (fieldsTrace fs : Context α → _) := by
  induction fs with
  | nil => exact .pure _
  | cons f fs ih =>
    rw [List.flatMap_cons]
    exact fun h => ((node f.2).bind fun v => ih.map fun _ {_ _ _} h => by cases h; rfl)
      (List.forall_mem_cons.1 h)

theorem output (p : Program) (plotted : Plotted α) :
    Takes (∀ r, p.result = some r → r.Steady) (p.result.elim [] Result.effects) (p.output plotted)
      fun ctx => p.result.elim [] (·.trace ctx) := by
  intro hsteady
  rw [Program.output]
  rcases hresult : p.result with _ | ⟨n⟩ | ⟨fs⟩
  · exact pure (P := True) _ trivial
  · exact (node n).map (fun _ {_ _ _} h => by cases h; rfl) (hsteady _ hresult)
  · exact (fields fs).map (fun _ {_ _ _} h => by cases h; rfl) (hsteady _ hresult)

end Takes

/-- **A step** that succeeds takes a course through all effects of its program. -/
theorem Program.course {p : Program} (hsteady : p.Steady) (hfilled : ∀ o ∈ p.ops, o.Filled)
    {c c' : Context α} {out : StepOutput α} (hstep : p.step c = .ok out c')
    (hheeded : Heeded (p.trace c)) : Course p.effects c c' :=
  ((Takes.ops p.ops []).bind fun plotted => Takes.output p plotted)
    ⟨fun o ho => ⟨hsteady.ops o ho, hfilled o ho⟩, hsteady.result⟩ hstep hheeded

end BarScript
