import BarScript.Proofs.Calls
import BarScript.Proofs.Effect
import BarScript.Run.Runner

/-!
# Two runs in lockstep

`Correspondence ρ D R E`: contexts that `R` relates look the same to a program that keeps to the
footprint `D` and to the program renamed by `ρ`, and `R` survives everything that they do. `R` may
depend on the effects that are still to come, so that it can say of a slot or of a call that it has
not been touched at this bar. Then the evaluation of an expression gives the same value on both
sides, or a failure on both (`Correspondence.node`), and so does a step if `R` survives drawings too
(`Execution.step`). `Simulation R` is the case of one program on both sides.
-/

namespace BarScript

/-- The same value and states in `R`, or the same failure and states in `E`. -/
def Alike {σ β : Type} (R E : σ → σ → Prop) :
    EStateM.Result Failure σ β → EStateM.Result Failure σ β → Prop
  | .ok x s, .ok y t => x = y ∧ R s t
  | .error f s, .error g t => f = g ∧ E s t
  | _, _ => False

theorem Alike.bind {σ β γ : Type} {R S E : σ → σ → Prop} {m m' : EStateM Failure σ β}
    {f f' : β → EStateM Failure σ γ} {s s' : σ} (h : Alike R E (m s) (m' s'))
    (hf : ∀ x t t', R t t' → Alike S E (f x t) (f' x t')) :
    Alike S E ((m >>= f) s) ((m' >>= f') s') := by
  show Alike S E (EStateM.bind m f s) (EStateM.bind m' f' s')
  unfold EStateM.bind
  cases hm : m s with
  | ok x t =>
    cases hm' : m' s' with
    | ok y t' =>
      rw [hm, hm'] at h
      obtain ⟨rfl, ht⟩ := h
      exact hf x t t' ht
    | error g t' => rw [hm, hm'] at h; exact h.elim
  | error g t =>
    cases hm' : m' s' with
    | ok y t' => rw [hm, hm'] at h; exact h.elim
    | error g' t' => rw [hm, hm'] at h; exact h

theorem Alike.mono {σ β : Type} {R S E F : σ → σ → Prop} {r r' : EStateM.Result Failure σ β}
    (h : Alike R E r r') (hR : ∀ s t, R s t → S s t) (hE : ∀ s t, E s t → F s t) :
    Alike S F r r' := by
  cases r <;> cases r'
  · exact ⟨h.1, hR _ _ h.2⟩
  · exact h.elim
  · exact h.elim
  · exact ⟨h.1, hE _ _ h.2⟩

variable {α : Type}

/-- From contexts that `R` relates before the effects `es`, two computations give alike outcomes,
with `es'` still to come. After a failure the contexts are in `E`. -/
def Lockstep {β : Type} (R : List Effect → Context α → Context α → Prop)
    (E : Context α → Context α → Prop) (es es' : List Effect) (m m' : EvalM α β) : Prop :=
  ∀ ctx ctx', R es ctx ctx' → Alike (R es') E (m ctx) (m' ctx')

namespace Lockstep

variable {β γ : Type} {R : List Effect → Context α → Context α → Prop}
variable {E : Context α → Context α → Prop} {es es' es'' : List Effect}

theorem pure (x : β) : Lockstep R E es es (pure x : EvalM α β) (pure x) := fun _ _ h => ⟨rfl, h⟩

theorem bind {m m' : EvalM α β} {f f' : β → EvalM α γ} (hm : Lockstep R E es es' m m')
    (hf : ∀ x, Lockstep R E es' es'' (f x) (f' x)) : Lockstep R E es es'' (m >>= f) (m' >>= f') :=
  fun _ _ h => (hm _ _ h).bind fun x _ _ ht => hf x _ _ ht

theorem map {m m' : EvalM α β} (f : β → γ) (hm : Lockstep R E es es' m m') :
    Lockstep R E es es' (do let x ← m; Pure.pure (f x)) (do let x ← m'; Pure.pure (f x)) :=
  hm.bind fun x => pure (f x)

end Lockstep

variable [Arith α]

/-- A relation of contexts that evaluation cannot tell apart and that it keeps. -/
structure Correspondence (ρ : Renaming) (D : Footprint)
    (R : List Effect → Context α → Context α → Prop) (E : Context α → Context α → Prop) :
    Prop where
  bar : ∀ {es c c'}, R es c c' → c.bar = c'.bar
  clock : ∀ {es c c'}, R es c c' → ∀ k, c.snapshot.clock k = c'.snapshot.clock k
  price : ∀ {es c c'}, R es c c' → ∀ p, c.snapshot.price p = c'.snapshot.price p
  slot : ∀ {es c c'}, R es c c' → ∀ a, D.reads a → c.stores.slot a = c'.stores.slot (ρ.slot a)
  /-- Effects need not happen. -/
  skip : ∀ {e es c c'}, R (e :: es) c c' → R es c c'
  written : ∀ {b id es c c'}, R (.set b id :: es) c c' → D.writes (b, id) → ∀ x {b' id'},
    ρ.slot (b, id) = (b', id') →
      R es { c with stores := c.stores.set b id x } { c' with stores := c'.stores.set b' id' x }
  called : ∀ {k k' es c c'}, R (.call k :: es) c c' → (∀ h, k.handle = some h → D.calls h) →
    k'.handle = k.handle.map ρ.handle → k.Sees c c' k' → ∀ nums,
      (k.perform nums c).1 = (k'.perform nums c').1 ∧
        R es (c.absorb (k.perform nums c).2) (c'.absorb (k'.perform nums c').2)
  failed : ∀ {es c c'}, R es c c' → E c c'

/-- A correspondence that drawings keep, too. -/
structure Execution (ρ : Renaming) (D : Footprint)
    (R : List Effect → Context α → Context α → Prop) (E : Context α → Context α → Prop) : Prop
    extends Correspondence ρ D R E where
  outputs : ∀ {es c c'}, R es c c' → c.outputs = c'.outputs
  drawn : ∀ {es c c'}, R es c c' → ∀ o, R es { c with outputs := o } { c' with outputs := o }

namespace Correspondence

variable {ρ : Renaming} {D : Footprint} {R : List Effect → Context α → Context α → Prop}
variable {E : Context α → Context α → Prop} (hR : Correspondence ρ D R E)
include hR

theorem skipAll {es es' : List Effect} {c c' : Context α} (h : R (es ++ es') c c') :
    R es' c c' := by
  induction es with
  | nil => exact h
  | cons e es ih => exact ih (hR.skip h)

/-- Computations may be preceded by effects that do not happen. -/
theorem late {β : Type} {m m' : EvalM α β} {es es' es'' : List Effect}
    (hm : Lockstep R E es' es'' m m') : Lockstep R E (es ++ es') es'' m m' :=
  fun _ _ h => hm _ _ (hR.skipAll h)

/-- Computations may leave effects out. -/
theorem early {β : Type} {m m' : EvalM α β} {es es'' : List Effect} (es' : List Effect)
    (hm : Lockstep R E es (es' ++ es'') m m') : Lockstep R E es es'' m m' :=
  fun _ _ h => (hm _ _ h).mono (fun _ _ h => hR.skipAll h) fun _ _ h => h

theorem view (es : List Effect) {c c' : Context α} (h : R es c c') {s s' : Source}
    (hs : s.Renamed ρ D s') : s.view c = s'.view c' := by
  have full := fun a ha => congrArg Series.full (hR.slot h a ha)
  cases hs with
  | price p => exact hR.price h p
  | @slot bank _ id _ hslot hreads =>
    have := full (bank, id) hreads
    rwa [hslot] at this
  | @computed id _ _ _ hslot hwrites _ =>
    have := full (.computed, id) (D.reads_of_writes _ hwrites)
    rwa [hslot] at this

theorem see (es : List Effect) {c c' : Context α} (h : R es c c') {b b' : Bound}
    (hb : b.Renamed ρ D b') : Bound.Sees c c' b b' := by
  cases hb with
  | series hs => exact .series (hR.view es h hs)
  | number _ => exact .number _ _
  | absent => exact .absent

theorem sees (es : List Effect) {c c' : Context α} (h : R es c c') {bs bs' : List Bound}
    (hbs : Bound.AllRenamed ρ D bs bs') : List.Forall₂ (Bound.Sees c c') bs bs' := by
  induction bs generalizing bs' with
  | nil => cases hbs; exact .nil
  | cons b bs ih =>
    cases hbs with
    | cons hb hbs => exact .cons (hR.see es h hb) (ih hbs)

theorem setSlot {bank bank' : Bank} {id id' : Nat} (hslot : ρ.slot (bank, id) = (bank', id'))
    (hwrites : D.writes (bank, id)) (x : α) (es : List Effect) :
    Lockstep R E (.set bank id :: es) es (setSlot bank id x) (setSlot bank' id' x) :=
  fun _ _ h => ⟨rfl, hR.written h hwrites x hslot⟩

theorem performed {k k' : StudyCall} {es : List Effect} {β : Type} (hk : k.Renamed ρ D k')
    (nums : List α) (f : List α → β) :
    Lockstep R E (.call k :: es) es (do
      let ctx ← get
      match k.perform nums ctx with
      | (values, t) => do
        set (ctx.absorb t)
        pure (f values) : EvalM α β) (do
      let ctx ← get
      match k'.perform nums ctx with
      | (values, t) => do
        set (ctx.absorb t)
        pure (f values)) := by
  intro c c' h
  obtain ⟨hv, ht⟩ := hR.called h hk.calls hk.handle ⟨hk.study, hR.sees _ h hk.args⟩ nums
  exact ⟨congrArg f hv, ht⟩

theorem historyOffset (v : α) (es : List Effect) :
    Lockstep R E es es (do
      match BarScript.historyOffset (← get).bar v with
      | .ok k => return k
      | .error failure => throw failure : EvalM α (Option Nat)) (do
      match BarScript.historyOffset (← get).bar v with
      | .ok k => return k
      | .error failure => throw failure) := by
  intro c c' h
  show Alike (R es) E ((match BarScript.historyOffset c.bar v with
      | .ok k => Pure.pure k
      | .error failure => throw failure : EvalM α (Option Nat)) c)
    ((match BarScript.historyOffset c'.bar v with
      | .ok k => Pure.pure k
      | .error failure => throw failure : EvalM α (Option Nat)) c')
  rw [← hR.bar h]
  cases BarScript.historyOffset c.bar v with
  | ok k => exact ⟨rfl, h⟩
  | error failure => exact ⟨rfl, hR.failed h⟩

/-! ## Expressions -/

omit hR

mutual

theorem node (hR : Correspondence ρ D R E) (n : Node) {n' : Node} (h : n.Renamed ρ D n')
    (es : List Effect) : Lockstep R E (n.effects ++ es) es n.eval n'.eval := by
  cases h with
  | number l => rw [Node.eval]; exact .pure _
  | flag b => rw [Node.eval]; exact .pure _
  | na => rw [Node.eval]; exact .pure _
  | @read s s' o o' ho hs =>
    rw [Node.eval, Node.eval, Node.effects, List.append_assoc]
    refine (offset hR o ho _).bind fun k => ?_
    cases k with
    | none => exact hR.late (.pure _)
    | some k =>
      refine (prepare hR s hs es).bind fun _ c c' h => ?_
      exact ⟨by rw [hR.view es h hs], h⟩
  | @clock k o o' ho =>
    rw [Node.eval, Node.eval, Node.effects]
    refine (offset hR o ho es).bind fun i => ?_
    cases i with
    | none => exact .pure _
    | some i => exact fun c c' h => ⟨by rw [hR.clock h], h⟩
  | barIndex =>
    rw [Node.eval]
    exact fun c c' h => ⟨by rw [hR.bar h], h⟩
  | @unary op n n' h =>
    rw [Node.eval, Node.eval, Node.effects]
    exact (node hR n h es).map _
  | @binary op l l' r r' hl hr =>
    rw [Node.eval, Node.eval, Node.effects, List.append_assoc]
    refine (node hR l hl _).bind fun a => ?_
    have hr := fun f : α → α => (node hR r hr es).map f
    cases op with
    | and =>
      dsimp only
      split
      · exact hr _
      · exact hR.late (.pure _)
    | or =>
      dsimp only
      split
      · exact hR.late (.pure _)
      · exact hr _
    | _ => exact hr _
  | @ternary c c' y y' n n' hc hy hn =>
    rw [Node.eval, Node.eval, Node.effects, List.append_assoc]
    refine (node hR c hc _).bind fun a => ?_
    rw [List.append_assoc]
    split
    · exact hR.early n.effects (node hR y hy _)
    · exact hR.late (node hR n hn es)
  | @study st as as' handle has hcalls =>
    rw [Node.eval, Node.eval, Node.effects, List.append_assoc]
    have hk : StudyCallOf.Renamed ρ D ⟨st, as, handle⟩ ⟨st, as', handle.map ρ.handle⟩ :=
      ⟨rfl, has, rfl, hcalls⟩
    exact (bounds hR as has _).bind fun nums => hR.performed hk nums (List.headD · Arith.nan)
  | @math f ns ns' h =>
    rw [Node.eval, Node.eval, Node.effects]
    exact (nodes hR ns h es).map _
  | @isNa n n' h =>
    rw [Node.eval, Node.eval, Node.effects]
    exact (node hR n h es).map _
  | @nz n n' r r' hn hr =>
    rw [Node.eval, Node.eval, Node.effects, List.append_assoc]
    refine (node hR n hn _).bind fun v => ?_
    split
    · exact node hR r hr es
    · exact hR.late (.pure _)

theorem offset (hR : Correspondence ρ D R E) (o : Option Node) {o' : Option Node}
    (h : Node.OffsetRenamed ρ D o o') (es : List Effect) :
    Lockstep R E (Node.offsetEffects o ++ es) es (Node.evalOffset o) (Node.evalOffset o') := by
  cases h with
  | none => rw [Node.evalOffset]; exact .pure _
  | @some n n' h =>
    rw [Node.evalOffset, Node.evalOffset, Node.offsetEffects]
    exact (node hR n h es).bind fun v => hR.historyOffset v es

theorem prepare (hR : Correspondence ρ D R E) (s : Source) {s' : Source} (h : s.Renamed ρ D s')
    (es : List Effect) :
    Lockstep R E (s.effects ++ es) es (s.prepare : EvalM α Unit) s'.prepare := by
  cases h with
  | price p => rw [Source.prepare]; exact .pure _
  | slot _ _ => rw [Source.prepare, Source.prepare]; exact .pure _
  | @computed id id' n n' hslot hwrites h =>
    rw [Source.prepare, Source.prepare, Source.effects, List.append_assoc]
    exact (node hR n h _).bind fun v => hR.setSlot hslot hwrites v es

theorem bounds (hR : Correspondence ρ D R E) (bs : List Bound) {bs' : List Bound}
    (h : Bound.AllRenamed ρ D bs bs') (es : List Effect) :
    Lockstep R E (Bound.allEffects bs ++ es) es (Bound.evalAll bs) (Bound.evalAll bs') := by
  cases h with
  | nil => rw [Bound.evalAll]; exact .pure _
  | @cons b b' bs bs' hb hbs =>
    rw [Bound.evalAll, Bound.evalAll, Bound.allEffects, List.append_assoc]
    exact (bound hR b hb _).bind fun v => (bounds hR bs hbs es).map _

theorem bound (hR : Correspondence ρ D R E) (b : Bound) {b' : Bound} (h : b.Renamed ρ D b')
    (es : List Effect) : Lockstep R E (b.effects ++ es) es b.evalNumber b'.evalNumber := by
  cases h with
  | @series s s' h =>
    rw [Bound.evalNumber, Bound.evalNumber, Bound.effects]
    exact (prepare hR s h es).map _
  | @number n n' h =>
    rw [Bound.evalNumber, Bound.evalNumber, Bound.effects]
    exact node hR n h es
  | absent => rw [Bound.evalNumber]; exact .pure _

theorem nodes (hR : Correspondence ρ D R E) (ns : List Node) {ns' : List Node}
    (h : Node.AllRenamed ρ D ns ns') (es : List Effect) :
    Lockstep R E (Node.allEffects ns ++ es) es (Node.evalAll ns) (Node.evalAll ns') := by
  cases h with
  | nil => rw [Node.evalAll]; exact .pure _
  | @cons n n' ns ns' hn hns =>
    rw [Node.evalAll, Node.evalAll, Node.allEffects, List.append_assoc]
    exact (node hR n hn _).bind fun v => (nodes hR ns hns es).map _

end

include hR

theorem call {k k' : StudyCall} (h : k.Renamed ρ D k') (es : List Effect) :
    Lockstep R E (k.effects ++ es) es k.eval k'.eval := by
  rw [StudyCallOf.effects, List.append_assoc]
  exact (hR.bounds k.args h.args _).bind fun nums => hR.performed h nums id

/-! ## Options -/

theorem option {o o' : OptionNode} (h : o.Renamed ρ D o') (es : List Effect) :
    Lockstep R E (o.effects ++ es) es (o.eval : EvalM α (OptionValue α)) o'.eval := by
  induction h generalizing es with
  | text s => rw [OptionNode.eval]; exact .pure _
  | flag b => rw [OptionNode.eval]; exact .pure _
  | @number n n' h =>
    rw [OptionNode.eval, OptionNode.eval, OptionNode.effects]
    exact (hR.node n h es).map _
  | @rgb ns ns' h =>
    have hes : Node.allEffects ns =
        Node.allEffects (ns.take 4) ++ Node.allEffects (ns.drop 4) := by
      simp only [Node.allEffects_eq, ← List.flatMap_append, List.take_append_drop]
    rw [OptionNode.eval, OptionNode.eval, OptionNode.effects, hes, List.append_assoc]
    exact hR.early (Node.allEffects (ns.drop 4)) ((hR.nodes (ns.take 4) (h.take 4) _).map _)
  | @newColor base base' alpha alpha' hbase halpha ih =>
    rw [OptionNode.eval, OptionNode.eval, OptionNode.effects, List.append_assoc]
    refine (ih _).bind fun b => ?_
    cases halpha with
    | none => exact .pure _
    | @some n n' h => exact (hR.node n h es).bind fun a _ _ h => ⟨rfl, h⟩

theorem options {os os' : OptionNodes} (h : Keyed (OptionNode.Renamed ρ D) os os')
    (given : Options α) (es : List Effect) :
    Lockstep R E (optionEffects os ++ es) es (evalOptions os given) (evalOptions os' given) := by
  induction h generalizing given with
  | nil => exact .pure _
  | @cons o o' os os' ho _ ih =>
    obtain ⟨key, o⟩ := o
    obtain ⟨key', o'⟩ := o'
    obtain ⟨rfl, ho⟩ := ho
    rw [evalOptions, evalOptions, optionEffects, List.flatMap_cons, List.append_assoc]
    exact (hR.option ho _).bind fun v => ih _

end Correspondence

/-! ## Instructions -/

namespace Execution

variable {ρ : Renaming} {D : Footprint} {R : List Effect → Context α → Context α → Prop}
variable {E : Context α → Context α → Prop} (hR : Execution ρ D R E)
include hR

theorem now {es : List Effect} {c c' : Context α} (h : R es c c') : c.now = c'.now := by
  simp only [Context.now, Snapshot.now, hR.clock h]

theorem drawAt (f : Outputs α → Int → Outputs α) (es : List Effect) :
    Lockstep R E es es (drawAt f) (drawAt f) := by
  intro c c' h
  refine ⟨rfl, ?_⟩
  show R es { c with outputs := f c.outputs c.now } { c' with outputs := f c'.outputs c'.now }
  rw [← hR.outputs h, ← hR.now h]
  exact hR.drawn h _

theorem drawing {d d' : Drawing} (h : d.Renamed ρ D d') (plotted : Plotted α) (es : List Effect) :
    Lockstep R E (d.effects ++ es) es (d.perform plotted) (d'.perform plotted) := by
  have options := fun {os os'} (hos : Keyed (OptionNode.Renamed ρ D) os os') =>
    hR.options hos (∅ : Options α) es
  cases h with
  | @plot n n' title os os' char h hos =>
    rw [Drawing.perform, Drawing.perform, Drawing.effects, List.append_assoc]
    exact (hR.node n h _).bind fun v => (options hos).bind fun o => (hR.drawAt _ es).bind fun _ =>
      .pure _
  | @candle a a' b b' c c' d d' title os os' bar ha hb hc hd hos =>
    rw [Drawing.perform, Drawing.perform, Drawing.effects]
    simp only [List.append_assoc]
    exact (hR.node a ha _).bind fun a => (hR.node b hb _).bind fun b =>
      (hR.node c hc _).bind fun c => (hR.node d hd _).bind fun d =>
      (options hos).bind fun o => (hR.drawAt _ es).bind fun _ => .pure _
  | fill t u hos => exact (options hos).bind fun o => (hR.drawAt _ es).bind fun _ => .pure _
  | @hline n n' title os os' h hos =>
    rw [Drawing.perform, Drawing.perform, Drawing.effects, List.append_assoc]
    exact (hR.node n h _).bind fun v => (options hos).bind fun o => (hR.drawAt _ es).bind fun _ =>
      .pure _
  | indicator t u overlay => exact (hR.drawAt _ es).bind fun _ => .pure _

/-- A call may give fewer values than there are bindings. -/
theorem setBindings {targets targets' : List Nat}
    (h : List.Forall₂ (fun t t' => ρ.slot (.bindings, t) = (.bindings, t') ∧
      D.writes (.bindings, t)) targets targets') (values : List α) (es : List Effect) :
    Lockstep R E (targets.map (.set .bindings ·) ++ es) es (setBindings targets values)
      (setBindings targets' values) := by
  intro c c' hc
  refine ⟨rfl, ?_⟩
  show R es
    { c with stores := (targets.zip values).foldl (fun s t => s.set .bindings t.1 t.2) c.stores }
    { c' with
      stores := (targets'.zip values).foldl (fun s t => s.set .bindings t.1 t.2) c'.stores }
  induction h generalizing values c c' with
  | nil => exact hc
  | cons ht _ ih =>
    cases values with
    | nil => exact hR.skipAll hc
    | cons v values => exact ih values _ _ (hR.written hc ht.2 v ht.1)

theorem op {o o' : Op} (h : o.Renamed ρ D o') (plotted : Plotted α) (es : List Effect) :
    Lockstep R E (o.effects ++ es) es (o.exec plotted) (o'.exec plotted) := by
  cases h with
  | @set bank bank' id id' n n' hslot hwrites h =>
    rw [Op.exec, Op.exec, Op.effects, List.append_assoc]
    exact (hR.node n h _).bind fun v => (hR.setSlot hslot hwrites v es).bind fun _ => .pure _
  | @init bank bank' id id' n n' hslot hwrites h =>
    rw [Op.exec, Op.exec, Op.effects, List.append_assoc]
    intro c c' hc
    have hempty := congrArg Series.isEmpty (hR.slot hc _ (D.reads_of_writes _ hwrites))
    rw [hslot] at hempty
    show Alike (R es) E
      ((if ((c.stores.bank bank).series id).isEmpty then do
          let v ← n.eval
          BarScript.setSlot bank id v
          Pure.pure plotted
        else Pure.pure plotted : EvalM α (Plotted α)) c)
      ((if ((c'.stores.bank bank').series id').isEmpty then do
          let v ← n'.eval
          BarScript.setSlot bank' id' v
          Pure.pure plotted
        else Pure.pure plotted : EvalM α (Plotted α)) c')
    rw [show ((c'.stores.bank bank').series id').isEmpty = _ from hempty.symm]
    show Alike (R es) E ((if ((c.stores.bank bank).series id).isEmpty then _ else _ :
      EvalM α (Plotted α)) c) ((if ((c.stores.bank bank).series id).isEmpty then _ else _ :
      EvalM α (Plotted α)) c')
    split
    · exact ((hR.node n h _).bind fun v => (hR.setSlot hslot hwrites v es).bind fun _ =>
        .pure plotted) c c' hc
    · exact ⟨rfl, hR.skip (hR.skipAll hc)⟩
  | unpack hk hts =>
    rw [Op.exec, Op.exec, Op.effects, List.append_assoc]
    exact (hR.call hk _).bind fun v => (hR.setBindings hts v es).bind fun _ => .pure _
  | @eval n n' h =>
    rw [Op.exec, Op.exec, Op.effects]
    exact (hR.node n h es).bind fun _ => .pure _
  | draw h => exact hR.drawing h plotted es

theorem ops {os os' : List Op} (h : List.Forall₂ (Op.Renamed ρ D) os os') (plotted : Plotted α)
    (es : List Effect) :
    Lockstep R E (os.flatMap Op.effects ++ es) es (Op.execAll os plotted)
      (Op.execAll os' plotted) := by
  induction h generalizing plotted with
  | nil => exact .pure _
  | cons ho _ ih =>
    rw [Op.execAll, Op.execAll, List.flatMap_cons, List.append_assoc]
    exact (hR.op ho plotted _).bind fun p => ih p

theorem fields {fs fs' : List (String × Node)} (h : Keyed (Node.Renamed ρ D) fs fs')
    (es : List Effect) :
    Lockstep R E (fs.flatMap (·.2.effects) ++ es) es (evalFields fs : EvalM α _)
      (evalFields fs') := by
  induction h with
  | nil => exact .pure _
  | @cons f f' fs fs' hf _ ih =>
    obtain ⟨key, n⟩ := f
    obtain ⟨key', n'⟩ := f'
    obtain ⟨rfl, hf⟩ := hf
    rw [evalFields, evalFields, List.flatMap_cons, List.append_assoc]
    exact (hR.node n hf _).bind fun v => ih.map _

theorem output {p p' : Program} (h : Option.Rel (Result.Renamed ρ D) p.result p'.result)
    (plotted : Plotted α) :
    Lockstep R E (p.result.elim [] Result.effects) [] (p.output plotted) (p'.output plotted) := by
  rw [Program.output, Program.output]
  generalize p.result = r at h
  generalize p'.result = r' at h
  cases h with
  | none => exact .pure _
  | some h =>
    cases h with
    | @single n n' h =>
      have h := hR.node n h []
      rw [List.append_nil] at h
      exact h.map _
    | @named fs fs' h =>
      have h := hR.fields h []
      rw [List.append_nil] at h
      exact h.map _

/-- **A step** does the same on both sides. -/
theorem step {p p' : Program} (hops : List.Forall₂ (Op.Renamed ρ D) p.ops p'.ops)
    (hresult : Option.Rel (Result.Renamed ρ D) p.result p'.result) :
    Lockstep R E p.effects [] (p.step : EvalM α (StepOutput α)) p'.step :=
  (hR.ops hops [] _).bind fun plotted => hR.output hresult plotted

end Execution

/-! ## One program -/

/-- A relation of contexts that no program can tell apart and that every program keeps. -/
structure Simulation (R : List Effect → Context α → Context α → Prop) : Prop where
  bar : ∀ {es c c'}, R es c c' → c.bar = c'.bar
  clock : ∀ {es c c'}, R es c c' → ∀ k, c.snapshot.clock k = c'.snapshot.clock k
  price : ∀ {es c c'}, R es c c' → ∀ p, c.snapshot.price p = c'.snapshot.price p
  stores : ∀ {es c c'}, R es c c' → c.stores = c'.stores
  outputs : ∀ {es c c'}, R es c c' → c.outputs = c'.outputs
  results : ∀ {es c c'}, R es c c' → c.results = c'.results
  /-- Effects need not happen. -/
  skip : ∀ {e es c c'}, R (e :: es) c c' → R es c c'
  written : ∀ {b id es c c'}, R (.set b id :: es) c c' → ∀ x,
    R es { c with stores := c.stores.set b id x } { c' with stores := c'.stores.set b id x }
  called : ∀ {k es c c'}, R (.call k :: es) c c' → ∀ nums,
    (k.perform nums c).1 = (k.perform nums c').1 ∧
      R es (c.absorb (k.perform nums c).2) (c'.absorb (k.perform nums c').2)
  drawn : ∀ {es c c'}, R es c c' → ∀ o, R es { c with outputs := o } { c' with outputs := o }

namespace Simulation

variable {R : List Effect → Context α → Context α → Prop} (hR : Simulation R)
include hR

theorem last {es : List Effect} {c c' : Context α} (h : R es c c') : R [] c c' := by
  induction es with
  | nil => exact h
  | cons e es ih => exact ih (hR.skip h)

theorem view {es : List Effect} {c c' : Context α} (h : R es c c') (s : Source) :
    s.view c = s.view c' := by
  cases s with
  | price p => exact hR.price h p
  | slot bank id => simp only [Source.view, hR.stores h]
  | computed id value => simp only [Source.view, hR.stores h]

theorem execution : Execution .id .all R (R []) where
  bar := hR.bar
  clock := hR.clock
  price := hR.price
  slot h a _ := by rw [hR.stores h]; rfl
  skip := hR.skip
  written h _ x := by
    rintro _ _ ⟨⟩
    exact hR.written h x
  called {k k' es c c'} h _ hhandle hsees nums := by
    -- the second call sees in its context what the first one would see there
    have hsame : k.Sees c' c' k' := by
      refine ⟨hsees.study, hsees.args.imp fun b b' hb => ?_⟩
      cases hb with
      | series hview => exact .series ((hR.view h _).symm.trans hview)
      | number n n' => exact .number n n'
      | absent => exact .absent
    rw [StudyCallOf.perform_eq hsame (hhandle.trans Option.map_id_apply)]
    exact hR.called h nums
  failed := hR.last
  outputs := hR.outputs
  drawn := hR.drawn

/-- **A step** does the same on both sides. -/
theorem step (p : Program) :
    Lockstep R (R []) p.effects [] (p.step : EvalM α (StepOutput α)) p.step :=
  hR.execution.step (List.forall₂_same.2 fun o _ => o.renamed_id) <| by
    cases p.result with
    | none => exact .none
    | some r => exact .some r.renamed_id

end Simulation

end BarScript
