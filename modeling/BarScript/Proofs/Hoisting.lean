import BarScript.Proofs.History
import BarScript.Proofs.Matched

/-!
# A computed series that is written beforehand

In a program `p`, one computed series stands where evaluation reaches it at every bar. The program
`p'` gives its value to a binding by an instruction of its own, right before the one that the series
is in, and reads the binding instead. Otherwise `p'` is `p` with new numbers. Then `p'` does what `p`
does: what comes before the series in its instruction touches neither the
slots nor the handles of the series, so it may as well come after it.
-/

namespace BarScript

/-- The variables, and the computed series and handles of some numbers. -/
def Footprint.of (slots calls : Nat → Prop) : Footprint where
  reads a := a.1 = .computed → slots a.2
  writes a := a.1 = .computed ∧ slots a.2
  calls := calls
  reads_of_writes _ h _ := h.2

/-- A computed series whose value is given to a variable instead. -/
structure Hoisting (ρ : Renaming) where
  /-- The computed series and the handles that the value takes, with the series itself. -/
  slots : Nat → Prop
  calls : Nat → Prop
  id : Nat
  value : Node
  value' : Node
  target : Bank × Nat
  slot : ρ.slot (.computed, id) = target
  own : slots id
  renamed : value.Renamed ρ (.of slots calls) value'

namespace Hoisting

variable {ρ : Renaming} (H : Hoisting ρ)

/-- Everything that the series has nothing to do with. -/
def others : Footprint := .of (fun i => ¬H.slots i) fun h => ¬H.calls h

/-- The series. -/
def source : Source := .computed H.id H.value

/-- The variable. -/
def moved : Source := .slot H.target.1 H.target.2

/-- The instruction that gives the variable its value. -/
def op : Op := .set H.target.1 H.target.2 H.value'

end Hoisting

variable {ρ : Renaming} (H : Hoisting ρ)

mutual

/-- The series stands in the expression where evaluation reaches it, unless `past` holds and a
history access passes it by. What is evaluated before it does not touch it. -/
inductive Node.Hoisted : Bool → Node → Node → Prop
  | unary {past : Bool} (op : UnaryOp) {n n' : Node} (h : Node.Hoisted past n n') :
      Node.Hoisted past (.unary op n) (.unary op n')
  | left {past : Bool} (op : BinaryOp) {l l' r r' : Node} (h : Node.Hoisted past l l')
      (hr : r.Renamed ρ .all r') : Node.Hoisted past (.binary op l r) (.binary op l' r')
  | right {past : Bool} {op : BinaryOp} (hop : op ≠ .and ∧ op ≠ .or) {l l' r r' : Node}
      (hl : l.Renamed ρ H.others l') (h : Node.Hoisted past r r') :
      Node.Hoisted past (.binary op l r) (.binary op l' r')
  | cond {past : Bool} {c c' y y' n n' : Node} (h : Node.Hoisted past c c')
      (hy : y.Renamed ρ .all y') (hn : n.Renamed ρ .all n') :
      Node.Hoisted past (.ternary c y n) (.ternary c' y' n')
  | offset {past : Bool} {s s' : Source} {o o' : Node} (h : Node.Hoisted past o o')
      (hs : s.Renamed ρ .all s') : Node.Hoisted past (.read s (some o)) (.read s' (some o'))
  | clock {past : Bool} (c : Clock) {o o' : Node} (h : Node.Hoisted past o o') :
      Node.Hoisted past (.clock c (some o)) (.clock c (some o'))
  | target {past : Bool} {o o' : Node} (ho : o.Renamed ρ H.others o') {id id' : Nat} {n n' : Node}
      (h : Node.Hoisted past n n') (hslot : ρ.slot (.computed, id) = (.computed, id')) :
      Node.Hoisted true (.read (.computed id n) (some o)) (.read (.computed id' n') (some o'))
  | study {past : Bool} (st : Study) {as as' : List Bound} (handle : Option Nat)
      (h : Bound.AllHoisted past as as') :
      Node.Hoisted past (.study ⟨st, as, handle⟩) (.study ⟨st, as', handle.map ρ.handle⟩)
  | math {past : Bool} (f : MathFn) {ns ns' : List Node} (h : Node.AllHoisted past ns ns') :
      Node.Hoisted past (.math f ns) (.math f ns')
  | isNa {past : Bool} {n n' : Node} (h : Node.Hoisted past n n') :
      Node.Hoisted past (.isNa n) (.isNa n')
  | nz {past : Bool} {n n' r r' : Node} (h : Node.Hoisted past n n')
      (hr : r.Renamed ρ .all r') : Node.Hoisted past (.nz n r) (.nz n' r')

inductive Bound.AllHoisted : Bool → List Bound → List Bound → Prop
  | head {past : Bool} {b b' : Bound} {bs bs' : List Bound} (h : Bound.Hoisted past b b')
      (hbs : Bound.AllRenamed ρ .all bs bs') : Bound.AllHoisted past (b :: bs) (b' :: bs')
  | tail {past : Bool} {b b' : Bound} {bs bs' : List Bound} (hb : b.Renamed ρ H.others b')
      (h : Bound.AllHoisted past bs bs') : Bound.AllHoisted past (b :: bs) (b' :: bs')

inductive Bound.Hoisted : Bool → Bound → Bound → Prop
  | here : Bound.Hoisted false (.series H.source) (.series H.moved)
  | series {past : Bool} {id id' : Nat} {n n' : Node} (h : Node.Hoisted past n n')
      (hslot : ρ.slot (.computed, id) = (.computed, id')) :
      Bound.Hoisted past (.series (.computed id n)) (.series (.computed id' n'))
  | number {past : Bool} {n n' : Node} (h : Node.Hoisted past n n') :
      Bound.Hoisted past (.number n) (.number n')

inductive Node.AllHoisted : Bool → List Node → List Node → Prop
  | head {past : Bool} {n n' : Node} {ns ns' : List Node} (h : Node.Hoisted past n n')
      (hns : Node.AllRenamed ρ .all ns ns') : Node.AllHoisted past (n :: ns) (n' :: ns')
  | tail {past : Bool} {n n' : Node} {ns ns' : List Node} (hn : n.Renamed ρ H.others n')
      (h : Node.AllHoisted past ns ns') : Node.AllHoisted past (n :: ns) (n' :: ns')

end

/-- The series stands in an argument of the call. -/
structure StudyCallOf.Hoisted (past : Bool) (k k' : StudyCall) : Prop where
  study : k'.study = k.study
  args : Bound.AllHoisted H past k.args k'.args
  handle : k'.handle = k.handle.map ρ.handle

inductive OptionNode.Hoisted (past : Bool) : OptionNode → OptionNode → Prop
  | number {n n' : Node} (h : n.Hoisted H past n') : Hoisted past (.number n) (.number n')
  | rgb {ns ns' : List Node} (h : Node.AllHoisted H past (ns.take 4) (ns'.take 4)) :
      Hoisted past (.rgb ns) (.rgb ns')
  | base {base base' : OptionNode} {alpha alpha' : Option Node} (h : Hoisted past base base')
      (halpha : Node.OffsetRenamed ρ .all alpha alpha') :
      Hoisted past (.newColor base alpha) (.newColor base' alpha')
  | alpha {base base' : OptionNode} {n n' : Node} (hbase : base.Renamed ρ H.others base')
      (h : n.Hoisted H past n') :
      Hoisted past (.newColor base (some n)) (.newColor base' (some n'))

/-- The series stands in one of the options. -/
def OptionNodes.Hoisted (past : Bool) : OptionNodes → OptionNodes → Prop :=
  KeyedAt (OptionNode.Renamed ρ H.others) (OptionNode.Hoisted H past) (OptionNode.Renamed ρ .all)

inductive Drawing.Hoisted (past : Bool) : Drawing → Drawing → Prop
  | plot {n n' : Node} (title : String) {os os' : OptionNodes} (char : Bool)
      (h : n.Hoisted H past n') (hos : Keyed (OptionNode.Renamed ρ .all) os os') :
      Hoisted past (.plot n title os char) (.plot n' title os' char)
  | plotOption {n n' : Node} (title : String) {os os' : OptionNodes} (char : Bool)
      (hn : n.Renamed ρ H.others n') (h : OptionNodes.Hoisted H past os os') :
      Hoisted past (.plot n title os char) (.plot n' title os' char)
  | candle {a a' b b' c c' d d' : Node} (title : String) {os os' : OptionNodes} (bar : Bool)
      (h : Node.AllHoisted H past [a, b, c, d] [a', b', c', d'])
      (hos : Keyed (OptionNode.Renamed ρ .all) os os') :
      Hoisted past (.candle a b c d title os bar) (.candle a' b' c' d' title os' bar)
  | candleOption {a a' b b' c c' d d' : Node} (title : String) {os os' : OptionNodes} (bar : Bool)
      (ha : a.Renamed ρ H.others a') (hb : b.Renamed ρ H.others b') (hc : c.Renamed ρ H.others c')
      (hd : d.Renamed ρ H.others d') (h : OptionNodes.Hoisted H past os os') :
      Hoisted past (.candle a b c d title os bar) (.candle a' b' c' d' title os' bar)
  | fill (t u : String) {os os' : OptionNodes} (h : OptionNodes.Hoisted H past os os') :
      Hoisted past (.fill t u os) (.fill t u os')
  | hline {n n' : Node} (title : String) {os os' : OptionNodes} (h : n.Hoisted H past n')
      (hos : Keyed (OptionNode.Renamed ρ .all) os os') :
      Hoisted past (.hline n title os) (.hline n' title os')
  | hlineOption {n n' : Node} (title : String) {os os' : OptionNodes}
      (hn : n.Renamed ρ H.others n') (h : OptionNodes.Hoisted H past os os') :
      Hoisted past (.hline n title os) (.hline n' title os')

inductive Op.Hoisted (past : Bool) : Op → Op → Prop
  | set {bank bank' : Bank} {id id' : Nat} {n n' : Node}
      (hslot : ρ.slot (bank, id) = (bank', id')) (h : n.Hoisted H past n') :
      Hoisted past (.set bank id n) (.set bank' id' n')
  | unpack {k k' : StudyCall} {ts ts' : List Nat} (hk : k.Hoisted H past k')
      (hts : List.Forall₂ (fun t t' => ρ.slot (.bindings, t) = (.bindings, t') ∧
        Footprint.all.writes (.bindings, t)) ts ts') : Hoisted past (.unpack k ts) (.unpack k' ts')
  | eval {n n' : Node} (h : n.Hoisted H past n') : Hoisted past (.eval n) (.eval n')
  | draw {d d' : Drawing} (h : d.Hoisted H past d') : Hoisted past (.draw d) (.draw d')

inductive Result.Hoisted (past : Bool) : Result → Result → Prop
  | single {n n' : Node} (h : n.Hoisted H past n') : Hoisted past (.single n) (.single n')
  | named {fs fs' : List (String × Node)}
      (h : KeyedAt (Node.Renamed ρ H.others) (Node.Hoisted H past) (Node.Renamed ρ .all) fs fs') :
      Hoisted past (.named fs) (.named fs')

/-- The second program sets the variable before the series is reached in the first one. -/
inductive Program.Hoisted (past : Bool) : Program → Program → Prop
  | op {os os' ps ps' : List Op} {o o' : Op} {r r' : Option Result} (s s' : Summary)
      (hos : List.Forall₂ (Op.Renamed ρ .all) os os') (h : o.Hoisted H past o')
      (hps : List.Forall₂ (Op.Renamed ρ .all) ps ps')
      (hr : Option.Rel (Result.Renamed ρ .all) r r') :
      Hoisted past ⟨os ++ o :: ps, r, s⟩ ⟨os' ++ H.op :: o' :: ps', r', s'⟩
  | result {os os' : List Op} {r r' : Result} (s s' : Summary)
      (hos : List.Forall₂ (Op.Renamed ρ .all) os os') (h : r.Hoisted H past r') :
      Hoisted past ⟨os, some r, s⟩ ⟨os' ++ [H.op], some r', s'⟩

/-! ## The effects of what the series stands in -/

variable {H}

mutual

theorem Node.Hoisted.effects (n : Node) {past : Bool} {n' : Node} (h : n.Hoisted H past n') :
    .set .computed H.id ∈ n.effects := by
  cases h with
  | @unary _ op n _ h => simpa [Node.effects] using Node.Hoisted.effects n h
  | @left _ op l _ r _ h hr => simpa [Node.effects] using .inl (Node.Hoisted.effects l h)
  | @right _ op hop l _ r _ hl h => simpa [Node.effects] using .inr (Node.Hoisted.effects r h)
  | @cond _ c _ y _ n _ h hy hn => simpa [Node.effects] using .inl (Node.Hoisted.effects c h)
  | @offset _ s _ o _ h hs =>
    simpa [Node.effects, Node.offsetEffects] using .inl (Node.Hoisted.effects o h)
  | @clock _ c o _ h => simpa [Node.effects, Node.offsetEffects] using Node.Hoisted.effects o h
  | @target past o _ ho id _ n _ h hslot =>
    simpa [Node.effects, Source.effects] using .inr (.inl (Node.Hoisted.effects n h))
  | @study _ st as _ handle h => simpa [Node.effects] using Bound.AllHoisted.effects as h
  | @math _ f ns _ h => simpa [Node.effects] using Node.AllHoisted.effects ns h
  | @isNa _ n _ h => simpa [Node.effects] using Node.Hoisted.effects n h
  | @nz _ n _ r _ h hr => simpa [Node.effects] using .inl (Node.Hoisted.effects n h)

theorem Bound.AllHoisted.effects (bs : List Bound) {past : Bool} {bs' : List Bound}
    (h : Bound.AllHoisted H past bs bs') : .set .computed H.id ∈ Bound.allEffects bs := by
  cases h with
  | @head _ b _ bs _ h hbs => simpa [Bound.allEffects] using .inl (Bound.Hoisted.effects b h)
  | @tail _ b _ bs _ hb h => simpa [Bound.allEffects] using .inr (Bound.AllHoisted.effects bs h)

theorem Bound.Hoisted.effects (b : Bound) {past : Bool} {b' : Bound} (h : b.Hoisted H past b') :
    .set .computed H.id ∈ b.effects := by
  cases h with
  | here => simp [Bound.effects, Hoisting.source, Source.effects]
  | @series _ id _ n _ h hslot =>
    simpa [Bound.effects, Source.effects] using .inl (Node.Hoisted.effects n h)
  | @number _ n _ h => simpa [Bound.effects] using Node.Hoisted.effects n h

theorem Node.AllHoisted.effects (ns : List Node) {past : Bool} {ns' : List Node}
    (h : Node.AllHoisted H past ns ns') : .set .computed H.id ∈ Node.allEffects ns := by
  cases h with
  | @head _ n _ ns _ h hns => simpa [Node.allEffects] using .inl (Node.Hoisted.effects n h)
  | @tail _ n _ ns _ hn h => simpa [Node.allEffects] using .inr (Node.AllHoisted.effects ns h)

end

/-! ## Outcomes -/

variable {α : Type}

/-- The same value and states in `R`, or a failure on both sides. -/
def Concur {σ β : Type} (R : σ → σ → Prop) :
    EStateM.Result Failure σ β → EStateM.Result Failure σ β → Prop
  | .ok x s, .ok y t => x = y ∧ R s t
  | .error _ _, .error _ _ => True
  | _, _ => False

theorem Alike.concur {σ β : Type} {R E : σ → σ → Prop} {r r' : EStateM.Result Failure σ β}
    (h : Alike R E r r') : Concur R r r' := by
  cases r <;> cases r'
  · exact h
  · exact h.elim
  · exact h.elim
  · trivial

theorem Concur.bind {σ β γ : Type} {R S : σ → σ → Prop} {m m' : EStateM Failure σ β}
    {f f' : β → EStateM Failure σ γ} {s s' : σ} (h : Concur R (m s) (m' s'))
    (hf : ∀ x t t', m s = .ok x t → R t t' → Concur S (f x t) (f' x t')) :
    Concur S ((m >>= f) s) ((m' >>= f') s') := by
  show Concur S (EStateM.bind m f s) (EStateM.bind m' f' s')
  unfold EStateM.bind
  cases hm : m s <;> cases hm' : m' s' <;> rw [hm, hm'] at h
  · obtain ⟨rfl, ht⟩ := h
    exact hf _ _ _ hm ht
  · exact h.elim
  · exact h.elim
  · trivial

variable [Arith α]

namespace Hoisting

/-- Gives the variable its value. -/
def assign (H : Hoisting ρ) : EvalM α Unit := do
  let v ← H.value'.eval
  setSlot H.target.1 H.target.2 v

/-- Where the variable has its value; the context itself if there is a failure. -/
def assigned (H : Hoisting ρ) (c : Context α) : Context α :=
  match H.assign c with
  | .ok _ c => c
  | .error _ _ => c

variable {H : Hoisting ρ} {β γ : Type} {past : Bool} {c₀ c₀' d d' : Context α}

/-- The series is brought up to date in the one context as the variable is in the other. -/
theorem prepare_alike (h : Abreast ρ (.of H.slots H.calls) d c₀' d c₀') :
    Alike (Abreast ρ (.of H.slots H.calls) d c₀') (fun _ _ => True)
      ((H.source.prepare : EvalM α Unit) d) (H.assign c₀') := by
  have hown := Abreast.correspondence ρ (.of H.slots H.calls) d c₀'
  unfold assign source
  rw [Source.prepare]
  have hset := fun v : α => hown.setSlot H.slot ⟨rfl, H.own⟩ v []
  exact ((hown.node H.value H.renamed [.set .computed H.id]).bind hset) d c₀' h

omit [Arith α] in
/-- What has been touched neither before nor beside the series is as it was. -/
theorem start_own (hmatched : c₀.Matched ρ c₀') {b : Context α}
    (h : Abreast ρ H.others c₀ b d d') : Abreast ρ (.of H.slots H.calls) d c₀' d c₀' := by
  refine .start (h.left.symm.trans hmatched.level) (fun a ha => ?_) fun i hi => ?_
  · exact (h.slot_kept a fun hw => hw.2 (ha hw.1)).1.trans (hmatched.slot a)
  · exact (h.entry_kept i fun hn => hn hi).1.trans (hmatched.entry i)

omit [Arith α] in
/-- The series is written after all, and the contexts match. -/
theorem meet (hmatched : c₀.Matched ρ c₀') {q e : Context α} (h : Abreast ρ H.others c₀ q d d')
    (hown : Abreast ρ (.of H.slots H.calls) d c₀' e q) : e.Matched ρ d' where
  level := (hown.left.symm.trans h.level)
  warmup := by
    obtain ⟨m, hm, hm'⟩ := h.warmup
    obtain ⟨n, hn, hn'⟩ := hown.warmup
    rw [hn, hm, hm', hn', hmatched.warmup, Warmup.observe_comm]
  slot a := by
    by_cases ha : a.1 = .computed ∧ H.slots a.2
    · rw [hown.slot a fun _ => ha.2, (h.slot_kept a fun hw => hw.2 ha.2).2]
    · rw [(hown.slot_kept a ha).1]
      exact h.slot a fun hc hs => ha ⟨hc, hs⟩
  entry i := by
    by_cases hi : H.calls i
    · rw [hown.entry i hi, (h.entry_kept i fun hn => hn hi).2]
    · rw [(hown.entry_kept i hi).1]
      exact h.entry i hi

/-- A history access of the trace passes the series by. -/
def Skipped (H : Hoisting ρ) (past : Bool) (tr : List (Event α)) : Prop :=
  past = true ∧ ∃ s, .skipped s ∈ tr ∧ .set .computed H.id ∈ s.effects

/-- What a computation that the series is in gives, and what the computation with the variable
gives: if the variable has got its value, the same; if not, failures. -/
def Outcome (H : Hoisting ρ) (c₀' : Context α) (r r' : EStateM.Result Failure (Context α) β) :
    Prop :=
  match H.assign c₀' with
  | .ok _ _ => Alike (Context.Matched ρ) (fun _ _ => True) r r'
  | .error _ _ => ∃ failure c, r = .error failure c

/-- The series is in the computation `m`, and `m'` reads the variable instead. -/
def Reaches (H : Hoisting ρ) (past : Bool) (m m' : EvalM α β)
    (tr : Context α → List (Event α)) : Prop :=
  ∀ c₀ c₀' d d', c₀.Matched ρ c₀' → Abreast ρ H.others c₀ (H.assigned c₀') d d' →
    H.Skipped past (tr d) ∨ H.Outcome c₀' (m d) (m' d')

/-- The computations do the same if the series has nothing to do with them. -/
def Apart (H : Hoisting ρ) (m m' : EvalM α β) : Prop :=
  ∀ c₀ b c c', Abreast ρ H.others c₀ b c c' →
    Alike (Abreast ρ H.others c₀ b) (fun _ _ => True) (m c) (m' c')

/-- The computations do the same in matched contexts. -/
def Same (ρ : Renaming) (m m' : EvalM α β) : Prop :=
  ∀ c c', c.Matched ρ c' → Alike (Context.Matched ρ) (fun _ _ => True) (m c) (m' c')

omit [Arith α] in
theorem same_pure (x : β) : Same ρ (pure x : EvalM α β) (pure x) := fun _ _ h => ⟨rfl, h⟩

omit [Arith α] in
theorem Skipped.mono {tr tr' : List (Event α)} (h : H.Skipped past tr) (htr : tr ⊆ tr') :
    H.Skipped past tr' :=
  ⟨h.1, h.2.imp fun _ hs => ⟨htr hs.1, hs.2⟩⟩

namespace Reaches

variable {m m' : EvalM α β} {f f' : β → EvalM α γ} {tr tr' : Context α → List (Event α)}

/-- The series is in what comes first. -/
theorem first (hm : H.Reaches past m m' tr) (hf : ∀ x, Same ρ (f x) (f' x))
    (htr : ∀ c, tr c ⊆ tr' c) : H.Reaches past (m >>= f) (m' >>= f') tr' := by
  intro c₀ c₀' d d' hmatched h
  refine (hm c₀ c₀' d d' hmatched h).imp (·.mono (htr d)) fun hout => ?_
  unfold Outcome at hout ⊢
  split at hout
  · exact hout.bind fun x t t' ht => hf x t t' ht
  · obtain ⟨failure, c, hfail⟩ := hout
    refine ⟨failure, c, ?_⟩
    show EStateM.bind m f d = _
    rw [EStateM.bind, hfail]

theorem passing (hm : H.Reaches past m m' tr) : H.Reaches true m m' tr :=
  fun c₀ c₀' d d' hmatched h => (hm c₀ c₀' d d' hmatched h).imp_left fun hs => ⟨rfl, hs.2⟩

theorem map (hm : H.Reaches past m m' tr) (f : β → γ) :
    H.Reaches past (do let x ← m; pure (f x)) (do let x ← m'; pure (f x)) tr :=
  hm.first (fun _ => same_pure _) fun _ => List.Subset.refl _

/-- The series is in what comes next. -/
theorem next (trf : β → Context α → List (Event α)) (hm : H.Apart m m')
    (hf : ∀ x, H.Reaches past (f x) (f' x) (trf x))
    (htr : ∀ c x c₁, m c = .ok x c₁ → trf x c₁ ⊆ tr' c) :
    H.Reaches past (m >>= f) (m' >>= f') tr' := by
  intro c₀ c₀' d d' hmatched h
  have hout := hm c₀ _ d d' h
  show _ ∨ H.Outcome c₀' (EStateM.bind m f d) (EStateM.bind m' f' d')
  unfold EStateM.bind
  cases hd : m d <;> cases hd' : m' d' <;> rw [hd, hd'] at hout
  · obtain ⟨rfl, he⟩ := hout
    exact (hf _ c₀ c₀' _ _ hmatched he).imp_left (·.mono (htr _ _ _ hd))
  · exact hout.elim
  · exact hout.elim
  · refine .inr ?_
    unfold Outcome
    split
    · exact ⟨hout.1, trivial⟩
    · exact ⟨_, _, rfl⟩

theorem within (hm : H.Reaches past m m' tr) (hf : ∀ x, Same ρ (f x) (f' x))
    (rest : Context α → List (Event α)) :
    H.Reaches past (m >>= f) (m' >>= f') fun c => tr c ++ rest c :=
  hm.first hf fun _ => List.subset_append_left _ _

theorem after (hm : H.Apart m m') (hf : ∀ x, H.Reaches past (f x) (f' x) tr)
    (before : Context α → List (Event α)) :
    H.Reaches past (m >>= f) (m' >>= f') fun c => before c ++ onSuccess m c fun _ => tr :=
  next (fun _ => tr) hm hf fun c x c₁ hx => by
    rw [onSuccess_ok hx]
    exact List.subset_append_right _ _

end Reaches

/-- The series itself. -/
theorem reaches_source (H : Hoisting ρ) (tr : Context α → List (Event α)) :
    H.Reaches past (H.source.prepare : EvalM α Unit) H.moved.prepare tr := by
  intro c₀ c₀' d d' hmatched h
  have hprepare := prepare_alike (start_own hmatched h)
  refine .inr ?_
  rw [moved, Source.prepare]
  unfold Outcome
  unfold assigned at h
  cases hassign : H.assign c₀' with
  | ok _ q =>
    rw [hassign] at hprepare h
    cases hd : (H.source.prepare : EvalM α Unit) d with
    | ok _ e =>
      rw [hd] at hprepare
      exact ⟨rfl, meet hmatched h hprepare.2⟩
    | error failure e =>
      rw [hd] at hprepare
      exact hprepare.elim
  | error failure q =>
    rw [hassign] at hprepare
    cases hd : (H.source.prepare : EvalM α Unit) d with
    | ok _ e =>
      rw [hd] at hprepare
      exact hprepare.elim
    | error failure' e => exact ⟨_, _, rfl⟩

theorem same_perform (k k' : StudyCall) (hstudy : k'.study = k.study)
    (hhandle : k'.handle = k.handle.map ρ.handle)
    (hsees : ∀ c c' : Context α, c.Matched ρ c' → List.Forall₂ (Bound.Sees c c') k.args k'.args)
    (nums : List α) (f : List α → β) :
    Same ρ (do
      let ctx ← get
      match k.perform nums ctx with
      | (values, t) => do
        set (ctx.absorb t)
        pure (f values) : EvalM α β) (do
      let ctx ← get
      match k'.perform nums ctx with
      | (values, t) => do
        set (ctx.absorb t)
        pure (f values)) := by
  intro c c' h
  obtain ⟨hv, ht⟩ := h.called hhandle ⟨hstudy, hsees c c' h⟩ nums
  exact ⟨congrArg f hv, ht⟩

omit [Arith α] in
theorem full_eq {c c' : Context α} (h : c.Matched ρ c') {a : Bank × Nat} {bank : Bank} {id : Nat}
    (hslot : ρ.slot a = (bank, id)) :
    (c.stores.slot a).full = ((c'.stores.bank bank).series id).full := by
  rw [h.slot a, hslot]
  rfl

/-- Once the series has been written, the arguments stand for the same. -/
theorem sees {c c' : Context α} (h : c.Matched ρ c') {bs bs' : List Bound} {past : Bool}
    (hbs : Bound.AllHoisted H past bs bs') : List.Forall₂ (Bound.Sees c c') bs bs' := by
  have hexecution := Context.Matched.execution (α := α) ρ
  induction bs generalizing bs' with
  | nil => cases hbs
  | cons b bs ih =>
    cases hbs with
    | tail hb hbs => exact .cons ((hexecution _).see [] h hb) (ih hbs)
    | head hb hbs =>
      refine .cons ?_ ((hexecution _).sees [] h hbs)
      cases hb with
      | here => exact .series (full_eq h H.slot)
      | series _ hslot => exact .series (full_eq h hslot)
      | number _ => exact .number _ _

theorem apart_node {n n' : Node} (h : n.Renamed ρ H.others n') :
    H.Apart n.eval (n'.eval : EvalM α α) := fun c₀ b =>
  (Abreast.correspondence ρ H.others c₀ b).node n h []

theorem same_node {n n' : Node} (h : n.Renamed ρ .all n') :
    Same ρ n.eval (n'.eval : EvalM α α) :=
  (Context.Matched.execution ρ .all).node n h []

theorem same_prepare {s s' : Source} (h : s.Renamed ρ .all s') :
    Same ρ s.prepare (s'.prepare : EvalM α Unit) :=
  (Context.Matched.execution ρ .all).prepare s h []

omit [Arith α] in
theorem Same.bind {m m' : EvalM α β} {f f' : β → EvalM α γ} (h : Same ρ m m')
    (hf : ∀ x, Same ρ (f x) (f' x)) : Same ρ (m >>= f) (m' >>= f') := fun c c' hc =>
  (h c c' hc).bind fun x => hf x

omit [Arith α] in
theorem Same.map {m m' : EvalM α β} (h : Same ρ m m') (f : β → γ) :
    Same ρ (do let x ← m; pure (f x)) (do let x ← m'; pure (f x)) :=
  h.bind fun x => same_pure (f x)

theorem same_historyOffset (v : α) : Same ρ (do
      match historyOffset (← get).bar v with
      | .ok k => return k
      | .error failure => throw failure : EvalM α (Option Nat)) (do
      match historyOffset (← get).bar v with
      | .ok k => return k
      | .error failure => throw failure) :=
  (Context.Matched.execution ρ .all).historyOffset v []

theorem apart_offset {o o' : Node} (h : o.Renamed ρ H.others o') :
    H.Apart (Node.evalOffset (some o)) (Node.evalOffset (some o') : EvalM α _) := fun c₀ b =>
  (Abreast.correspondence ρ H.others c₀ b).offset (some o) (.some h) []

theorem apart_bound {b b' : Bound} (h : b.Renamed ρ H.others b') :
    H.Apart b.evalNumber (b'.evalNumber : EvalM α α) := fun c₀ d =>
  (Abreast.correspondence ρ H.others c₀ d).bound b h []

theorem same_bounds {bs bs' : List Bound} (h : Bound.AllRenamed ρ .all bs bs') :
    Same ρ (Bound.evalAll bs) (Bound.evalAll bs' : EvalM α _) :=
  (Context.Matched.execution ρ .all).bounds bs h []

theorem same_nodes {ns ns' : List Node} (h : Node.AllRenamed ρ .all ns ns') :
    Same ρ (Node.evalAll ns) (Node.evalAll ns' : EvalM α _) :=
  (Context.Matched.execution ρ .all).nodes ns h []

namespace Reaches

open List (Subset.refl subset_append_left subset_append_right subset_append_of_subset_right)

mutual

theorem node (n : Node) {past : Bool} {n' : Node} (h : n.Hoisted H past n') :
    H.Reaches past n.eval n'.eval (n.trace : Context α → _) := by
  cases h with
  | @unary _ op n n' h =>
    rw [Node.eval, Node.eval]
    exact (node n h).map _
  | @left _ op l l' r r' h hr =>
    rw [Node.eval, Node.eval]
    refine (node l h).within (fun a => ?_) _
    have hr := same_node (α := α) hr
    cases op with
    | and =>
      dsimp only
      split
      · exact hr.map _
      · exact same_pure _
    | or =>
      dsimp only
      split
      · exact same_pure _
      · exact hr.map _
    | _ => exact hr.map _
  | @right _ op hop l l' r r' hl h =>
    rw [Node.eval, Node.eval]
    refine .next (fun _ => r.trace) (apart_node hl) (fun a => ?_) fun c a c₁ ha => ?_
    · cases op with
      | and => exact absurd rfl hop.1
      | or => exact absurd rfl hop.2
      | _ => exact (node r h).map _
    · have hdecided : op.decided a = false := by
        cases op with
        | and => exact absurd rfl hop.1
        | or => exact absurd rfl hop.2
        | _ => rfl
      rw [Node.trace, onSuccess_ok ha, hdecided]
      exact subset_append_right _ _
  | @cond _ c c' y y' n n' h hy hn =>
    rw [Node.eval, Node.eval]
    refine (node c h).within (fun a => ?_) _
    split
    · exact same_node hy
    · exact same_node hn
  | @offset _ s s' o o' h hs =>
    rw [Node.eval, Node.eval]
    refine (offset o h).within (fun k => ?_) _
    cases k with
    | none => exact same_pure _
    | some k =>
      refine (same_prepare hs).bind fun _ d d' hd => ?_
      exact ⟨by rw [(Context.Matched.execution ρ .all).view [] hd hs], hd⟩
  | @clock _ k o o' h =>
    rw [Node.eval, Node.eval]
    refine (offset o h).first (fun i => ?_) fun c => Subset.refl _
    cases i with
    | none => exact same_pure _
    | some i =>
      exact fun c c' hc => ⟨by rw [hc.level.snapshot], hc⟩
  | @target past o o' ho id id' n n' h hslot =>
    rw [Node.eval, Node.eval]
    refine .next (fun k c => match k with
      | none => [.skipped (.computed id n)]
      | some _ => n.trace c) (apart_offset ho) (fun k => ?_) fun c k c₁ hk => ?_
    · cases k with
      | none =>
        refine fun _ _ _ _ _ _ => .inl ⟨rfl, _, .head _, ?_⟩
        rw [Source.effects]
        exact List.mem_append_left _ h.effects
      | some k =>
        refine (series n h hslot).passing.first (fun _ c c' hc => ?_) fun _ => Subset.refl _
        exact ⟨congrArg (View.ago · k) (full_eq hc hslot), hc⟩
    · rw [Node.trace, onSuccess_ok hk]
      cases k with
      | none => exact subset_append_right _ _
      | some k =>
        dsimp only
        rw [Source.trace, List.append_assoc]
        exact subset_append_of_subset_right _ (subset_append_left _ _)
  | @study _ st as as' handle h =>
    rw [Node.eval, Node.eval]
    refine (bounds as h).within (fun nums => ?_) _
    exact same_perform ⟨st, as, handle⟩ ⟨st, as', handle.map ρ.handle⟩ rfl rfl
      (fun _ _ hc => sees hc h) nums (List.headD · Arith.nan)
  | @math _ f ns ns' h =>
    rw [Node.eval, Node.eval]
    exact (nodes ns h).map _
  | @isNa _ n n' h =>
    rw [Node.eval, Node.eval]
    exact (node n h).map _
  | @nz _ n n' r r' h hr =>
    rw [Node.eval, Node.eval]
    refine (node n h).within (fun v => ?_) _
    split
    · exact same_node hr
    · exact same_pure _

theorem offset (n : Node) {past : Bool} {n' : Node} (h : n.Hoisted H past n') :
    H.Reaches past (Node.evalOffset (some n)) (Node.evalOffset (some n'))
      (n.trace : Context α → _) := by
  rw [Node.evalOffset, Node.evalOffset]
  exact (node n h).first (fun v => same_historyOffset v) fun _ => Subset.refl _

theorem series (n : Node) {past : Bool} {n' : Node} (h : n.Hoisted H past n') {id id' : Nat}
    (hslot : ρ.slot (.computed, id) = (.computed, id')) :
    H.Reaches past (Source.computed id n).prepare (Source.computed id' n').prepare
      (n.trace : Context α → _) := by
  rw [Source.prepare, Source.prepare]
  exact (node n h).first
    (fun v => (Context.Matched.execution ρ .all).setSlot hslot trivial v [])
    fun _ => Subset.refl _

theorem bounds (bs : List Bound) {past : Bool} {bs' : List Bound}
    (h : Bound.AllHoisted H past bs bs') :
    H.Reaches past (Bound.evalAll bs) (Bound.evalAll bs') (Bound.traceAll bs : Context α → _) := by
  cases h with
  | @head _ b b' bs bs' h hbs =>
    rw [Bound.evalAll, Bound.evalAll]
    exact (bound b h).within (fun v => (same_bounds hbs).map _) _
  | @tail _ b b' bs bs' hb h =>
    rw [Bound.evalAll, Bound.evalAll]
    exact after (apart_bound hb) (fun v => (bounds bs h).map _) _

theorem bound (b : Bound) {past : Bool} {b' : Bound} (h : b.Hoisted H past b') :
    H.Reaches past b.evalNumber b'.evalNumber (b.trace : Context α → _) := by
  cases h with
  | here =>
    rw [Bound.evalNumber, Bound.evalNumber]
    exact (reaches_source H _).map _
  | @series _ id id' n n' h hslot =>
    rw [Bound.evalNumber, Bound.evalNumber]
    exact (series n h hslot).within (fun _ => same_pure _) _
  | @number _ n n' h =>
    rw [Bound.evalNumber, Bound.evalNumber]
    exact node n h

theorem nodes (ns : List Node) {past : Bool} {ns' : List Node}
    (h : Node.AllHoisted H past ns ns') :
    H.Reaches past (Node.evalAll ns) (Node.evalAll ns') (Node.traceAll ns : Context α → _) := by
  cases h with
  | @head _ n n' ns ns' h hns =>
    rw [Node.evalAll, Node.evalAll]
    exact (node n h).within (fun v => (same_nodes hns).map _) _
  | @tail _ n n' ns ns' hn h =>
    rw [Node.evalAll, Node.evalAll]
    exact after (apart_node hn) (fun v => (nodes ns h).map _) _

end

end Reaches

end Hoisting

end BarScript
