import Mathlib.Data.List.Nodup
import BarScript.Proofs.Effect
import BarScript.Proofs.View

/-!
# What happens in a step

`Program.trace p ctx` lists the writes of slots and the readings of series in the step of a program,
in the order in which they happen. It is `Faithful`: the writes, replayed, give the stores that the
step leaves; they follow the effects of the program; and a series is shown as the writes before have
made it, a computed one after it has been written (`Program.trace_faithful`).
-/

namespace BarScript

/-- Something that happens in an evaluation. -/
inductive Event (α : Type) where
  /-- A slot is set. -/
  | wrote (bank : Bank) (id : Nat) (x : α)
  /-- An indicator call or a history access reads a series. -/
  | saw (s : Source) (v : View α)
  /-- The offset of a history access is unavailable, and its series is left alone. -/
  | skipped (s : Source)

variable {α : Type}

namespace Event

/-- The value that an event gives to a slot. -/
def value? (a : Bank × Nat) : Event α → Option α
  | wrote bank id x => if (bank, id) = a then some x else none
  | saw _ _ => none
  | skipped _ => none

/-- The slot that is written. -/
def slot? : Event α → Option (Bank × Nat)
  | wrote bank id _ => some (bank, id)
  | saw _ _ => none
  | skipped _ => none

/-- The stores after an event. -/
def replay (st : Stores α) : Event α → Stores α
  | wrote bank id x => st.set bank id x
  | saw _ _ => st
  | skipped _ => st

end Event

/-- The slot that an effect writes. -/
def Effect.slot? : Effect → Option (Bank × Nat)
  | set bank id => some (bank, id)
  | call _ => none

/-- The values that a slot is given, in their order. -/
def given (a : Bank × Nat) (tr : List (Event α)) : List α := tr.filterMap (Event.value? a)

/-- The stores after some events. -/
def Stores.after (st : Stores α) (tr : List (Event α)) : Stores α := tr.foldl Event.replay st

@[simp] theorem given_nil (a : Bank × Nat) : given a ([] : List (Event α)) = [] := rfl

@[simp] theorem given_append (a : Bank × Nat) (tr tr' : List (Event α)) :
    given a (tr ++ tr') = given a tr ++ given a tr' := List.filterMap_append

@[simp] theorem Stores.after_append (st : Stores α) (tr tr' : List (Event α)) :
    st.after (tr ++ tr') = (st.after tr).after tr' := List.foldl_append

/-- A slot holds what it has been given. -/
theorem Stores.slot_after (st : Stores α) (tr : List (Event α)) (a : Bank × Nat) :
    (st.after tr).slot a = (given a tr).foldl Series.setCurrent (st.slot a) := by
  induction tr generalizing st with
  | nil => rfl
  | cons e tr ih =>
    rw [after, List.foldl_cons, ← after, ih]
    cases e with
    | wrote bank id x =>
      simp only [given, Event.replay, List.filterMap_cons, Event.value?, slot_set]
      by_cases h : a = (bank, id)
      · subst h; simp
      · simp [h, Ne.symm h]
    | saw s v => rfl
    | skipped s => rfl

theorem mem_given {a : Bank × Nat} {x : α} {tr : List (Event α)} :
    x ∈ given a tr ↔ .wrote a.1 a.2 x ∈ tr := by
  simp only [given, List.mem_filterMap]
  constructor
  · rintro ⟨e, he, hx⟩
    cases e with
    | wrote bank id y =>
      simp only [Event.value?, Option.ite_none_right_eq_some, Option.some.injEq] at hx
      obtain ⟨rfl, rfl⟩ := hx
      exact he
    | saw s v => cases hx
    | skipped s => cases hx
  · intro h
    exact ⟨_, h, if_pos rfl⟩

/-- The events that follow a computation if it succeeds. -/
def onSuccess {β : Type} (m : EvalM α β) (ctx : Context α)
    (next : β → Context α → List (Event α)) : List (Event α) :=
  match m ctx with
  | .ok x ctx => next x ctx
  | .error _ _ => []

theorem onSuccess_ok {β : Type} {m : EvalM α β} {c c' : Context α} {x : β}
    {next : β → Context α → List (Event α)} (h : m c = .ok x c') :
    onSuccess m c next = next x c' := by
  rw [onSuccess, h]

theorem onSuccess_error {β : Type} {m : EvalM α β} {c c' : Context α} {failure : Failure}
    {next : β → Context α → List (Event α)} (h : m c = .error failure c') :
    onSuccess m c next = [] := by
  rw [onSuccess, h]

/-! ## Faithful traces -/

/-- A series is shown as the events before have left it, a computed one after it has been written. -/
structure Shown (st : Stores α) (before : List (Event α)) (s : Source) (v : View α) : Prop where
  slot : ∀ a, s.slot? = some a → v = ((st.after before).slot a).full
  written : ∀ id n, s = .computed id n → ∃ x, .wrote .computed id x ∈ before

/-- The events `trace` are what a computation with the effects `es` does. -/
structure Faithful {β : Type} (es : List Effect) (m : EvalM α β)
    (trace : Context α → List (Event α)) : Prop where
  stores : ∀ {c x c'}, m c = .ok x c' → c'.stores = c.stores.after (trace c)
  order : ∀ c, ((trace c).filterMap Event.slot?).Sublist (es.filterMap Effect.slot?)
  shown : ∀ {c before s v rest}, trace c = before ++ .saw s v :: rest → Shown c.stores before s v

theorem Shown.prepend {st : Stores α} {tr before : List (Event α)} {s : Source} {v : View α}
    (h : Shown (st.after tr) before s v) : Shown st (tr ++ before) s v where
  slot a ha := by rw [Stores.after_append]; exact h.slot a ha
  written id n hs := (h.written id n hs).imp fun _ => List.mem_append_right _

/-- What stands in a list after another one stands in one of the two. -/
theorem split_append {β : Type} {xs ys before rest : List β} {e : β}
    (h : xs ++ ys = before ++ e :: rest) :
    (∃ rest', xs = before ++ e :: rest') ∨ ∃ mid, before = xs ++ mid ∧ ys = mid ++ e :: rest := by
  rcases List.append_eq_append_iff.1 h with ⟨mid, hbefore, hys⟩ | ⟨mid, hxs, hrest⟩
  · exact .inr ⟨mid, hbefore, hys⟩
  · cases mid with
    | nil => exact .inr ⟨[], by simp [hxs], hrest.symm⟩
    | cons e' mid =>
      obtain ⟨rfl, rfl⟩ := List.cons.inj hrest
      exact .inl ⟨mid, hxs⟩

theorem eval_bind_ok {β γ : Type} {m : EvalM α β} {f : β → EvalM α γ} {c c' : Context α} {y : γ}
    (h : (m >>= f) c = .ok y c') : ∃ x c₁, m c = .ok x c₁ ∧ f x c₁ = .ok y c' := by
  replace h : EStateM.bind m f c = .ok y c' := h
  unfold EStateM.bind at h
  cases hm : m c with
  | ok x c₁ => rw [hm] at h; exact ⟨x, c₁, rfl, h⟩
  | error f c₁ => rw [hm] at h; cases h

theorem eval_bind_of_ok {β γ : Type} {m : EvalM α β} {f : β → EvalM α γ} {c c₁ : Context α} {x : β}
    {r : EStateM.Result Failure (Context α) γ} (hm : m c = .ok x c₁) (hf : f x c₁ = r) :
    (m >>= f) c = r := by
  show EStateM.bind m f c = r
  rw [EStateM.bind, hm]
  exact hf

namespace Faithful

variable {β γ : Type} {es es' : List Effect} {m : EvalM α β} {f : β → EvalM α γ}
variable {tr : Context α → List (Event α)}

theorem mono (h : Faithful es m tr) (hes : es.Sublist es') : Faithful es' m tr where
  stores := h.stores
  order c := (h.order c).trans (hes.filterMap _)
  shown := h.shown

/-- Nothing happens. -/
theorem quiet (hm : ∀ {c x c'}, m c = .ok x c' → c'.stores = c.stores) :
    Faithful [] m fun _ => [] where
  stores h := hm h
  order _ := List.Sublist.refl _
  shown h := by simp at h

/-- A slot that is no effect is given nothing. -/
theorem given_nil (h : Faithful es m tr) {a : Bank × Nat} (ha : .set a.1 a.2 ∉ es)
    (c : Context α) : given a (tr c) = [] := by
  refine List.eq_nil_iff_forall_not_mem.2 fun x hx => ha ?_
  have hslot : a ∈ (tr c).filterMap Event.slot? :=
    List.mem_filterMap.2 ⟨_, mem_given.1 hx, rfl⟩
  obtain ⟨e, he, hea⟩ := List.mem_filterMap.1 ((h.order c).subset hslot)
  cases e with
  | set bank id => cases hea; exact he
  | call k => cases hea

/-- A computed series is written at most once, if no two effects write it. -/
theorem given_length_le (h : Faithful es m tr) (hes : (es.filterMap Effect.computed?).Nodup)
    (id : Nat) (c : Context α) : (given (.computed, id) (tr c)).length ≤ 1 := by
  have hevents : ∀ tr : List (Event α),
      (given (.computed, id) tr).length = (tr.filterMap Event.slot?).count (.computed, id) := by
    intro tr
    induction tr with
    | nil => rfl
    | cons e tr ih =>
      cases e with
      | wrote bank i x =>
        by_cases hb : (bank, i) = (Bank.computed, id) <;>
          simp_all [given, Event.value?, Event.slot?]
      | saw s v => exact ih
      | skipped s => exact ih
  have heffects : (es.filterMap Effect.slot?).count (.computed, id) =
      (es.filterMap Effect.computed?).count id := by
    clear h hes
    induction es with
    | nil => rfl
    | cons e es ih =>
      cases e with
      | call k => exact ih
      | set bank i =>
        cases bank with
        | computed => simp [Effect.slot?, Effect.computed?, List.count_cons, ih]
        | _ =>
          show _ = (es.filterMap Effect.computed?).count id
          simp [Effect.slot?, ih]
  rw [hevents]
  exact Nat.le_trans ((h.order c).count_le _) (heffects ▸ List.nodup_iff_count_le_one.1 hes id)

theorem pure (x : β) : Faithful [] (pure x : EvalM α β) fun _ => [] :=
  quiet fun h => by cases h; rfl

/-- One of two computations. -/
theorem ite {m' : EvalM α β} {tr' : Context α → List (Event α)} {b : Prop} [Decidable b]
    (hm : Faithful es m tr) (hm' : Faithful es m' tr') :
    Faithful es (if b then m else m') fun c => if b then tr c else tr' c := by
  split
  · exact hm
  · exact hm'

/-- **One computation after another** does what the one does and then what the other does. -/
theorem bind {tr' : β → Context α → List (Event α)} (hm : Faithful es m tr)
    (hf : ∀ x, Faithful es' (f x) (tr' x)) :
    Faithful (es ++ es') (m >>= f) fun c => tr c ++ onSuccess m c tr' where
  stores {c y c'} h := by
    obtain ⟨x, c₁, hx, hy⟩ := eval_bind_ok h
    rw [onSuccess_ok hx, Stores.after_append, (hf x).stores hy, hm.stores hx]
  order c := by
    rw [List.filterMap_append, List.filterMap_append]
    refine (hm.order c).append ?_
    cases hx : m c with
    | ok x c₁ => rw [onSuccess_ok hx]; exact (hf x).order c₁
    | error g c₁ => rw [onSuccess_error hx]; exact List.nil_sublist _
  shown {c before s v rest} h := by
    rcases split_append h with ⟨rest, h⟩ | ⟨mid, rfl, hnext⟩
    · exact hm.shown h
    · cases hx : m c with
      | error g c₁ => simp [onSuccess_error hx] at hnext
      | ok x c₁ =>
        rw [onSuccess_ok hx] at hnext
        exact .prepend (hm.stores hx ▸ (hf x).shown hnext)

/-- A computation that is made in some contexts only. -/
theorem onlyIf (hm : Faithful es m tr) (b : Context α → Prop) [DecidablePred b] (x : β) :
    Faithful es (do if b (← get) then m else Pure.pure x) fun c => if b c then tr c else [] where
  stores {c _ _} h := by
    replace h : (if b c then m else Pure.pure x) c = _ := h
    split at h
    · rw [if_pos ‹_›]; exact hm.stores h
    · rw [if_neg ‹_›]; cases h; rfl
  order c := by
    split
    · exact hm.order c
    · exact List.nil_sublist _
  shown {c _ _ _ _} h := by
    split at h
    · exact hm.shown h
    · simp at h

/-- What comes after changes no stores. -/
theorem map (hm : Faithful es m tr) (hf : ∀ x {c y c'}, f x c = .ok y c' → c'.stores = c.stores) :
    Faithful es (m >>= f) tr where
  stores h := by
    obtain ⟨x, c₁, hx, hy⟩ := eval_bind_ok h
    rw [hf x hy, hm.stores hx]
  order := hm.order
  shown := hm.shown

/-- A series may be left alone. -/
theorem skipped (x : β) (s : Source) :
    Faithful [] (Pure.pure x : EvalM α β) fun _ => [.skipped s] where
  stores h := by cases h; rfl
  order _ := List.Sublist.refl _
  shown h := by
    rcases List.cons_eq_append_iff.1 h with ⟨-, h⟩ | ⟨_, -, h⟩
    · cases h
    · simp at h

theorem setSlot (bank : Bank) (id : Nat) (x : α) :
    Faithful [.set bank id] (setSlot bank id x) fun _ => [.wrote bank id x] where
  stores h := by cases h; rfl
  order _ := List.Sublist.refl _
  shown h := by
    rcases List.cons_eq_append_iff.1 h with ⟨-, h⟩ | ⟨_, -, h⟩
    · cases h
    · simp at h

theorem setBindings (targets : List Nat) (values : List α) :
    Faithful (targets.map (.set .bindings ·)) (setBindings targets values)
      fun _ => (targets.zip values).map fun t => .wrote .bindings t.1 t.2 where
  stores h := by
    cases h
    rw [Stores.after, List.foldl_map]
    rfl
  order c := by
    induction targets generalizing values with
    | nil => exact List.Sublist.refl _
    | cons id targets ih =>
      cases values with
      | nil => exact List.nil_sublist _
      | cons v values => exact (ih values).cons_cons _
  shown h := by
    obtain ⟨_, _, -, -, htail⟩ := List.map_eq_append_iff.1 h
    obtain ⟨_, _, -, hsaw, -⟩ := List.map_eq_cons_iff.1 htail
    cases hsaw

end Faithful

/-! ## Traces -/

variable [Arith α]

/-- Series are read as they stand. -/
def sights (ss : List Source) (ctx : Context α) : List (Event α) :=
  ss.map fun s => .saw s (s.view ctx)

/-- The series of an argument. -/
def Bound.source? : Bound → Option Source
  | series s => some s
  | number _ => none
  | absent => none

/-- The left operand decides alone. -/
def BinaryOp.decided (op : BinaryOp) (a : α) : Bool :=
  match op with
  | .and => !Arith.truth a
  | .or => Arith.truth a
  | _ => false

mutual

/-- What happens in the evaluation of an expression. -/
def Node.trace : Node → Context α → List (Event α)
  | .number _, _ => []
  | .flag _, _ => []
  | .na, _ => []
  | .read source offset, ctx =>
    Node.offsetTrace offset ctx ++ onSuccess (Node.evalOffset offset) ctx fun k ctx =>
      match k with
      | none => [.skipped source]
      | some _ => source.trace ctx ++ onSuccess source.prepare ctx fun _ => sights [source]
  | .clock _ offset, ctx => Node.offsetTrace offset ctx
  | .barIndex, _ => []
  | .unary _ operand, ctx => operand.trace ctx
  | .binary op left right, ctx =>
    left.trace ctx ++ onSuccess left.eval ctx fun a ctx =>
      if op.decided a then [] else right.trace ctx
  | .ternary cond yes no, ctx =>
    cond.trace ctx ++ onSuccess cond.eval ctx fun a ctx =>
      if Arith.truth a then yes.trace ctx else no.trace ctx
  | .study ⟨_, args, _⟩, ctx =>
    Bound.traceAll args ctx ++
      onSuccess (Bound.evalAll args) ctx fun _ => sights (args.filterMap Bound.source?)
  | .math _ args, ctx => Node.traceAll args ctx
  | .isNa operand, ctx => operand.trace ctx
  | .nz operand replacement, ctx =>
    operand.trace ctx ++ onSuccess operand.eval ctx fun v ctx =>
      if Arith.isNaN v then replacement.trace ctx else []

def Node.offsetTrace : Option Node → Context α → List (Event α)
  | none, _ => []
  | some n, ctx => n.trace ctx

/-- What happens when a series is brought up to date. -/
def Source.trace : Source → Context α → List (Event α)
  | .computed id value, ctx =>
    value.trace ctx ++ onSuccess value.eval ctx fun v _ => [.wrote .computed id v]
  | .price _, _ => []
  | .slot _ _, _ => []

def Bound.traceAll : List Bound → Context α → List (Event α)
  | [], _ => []
  | b :: bs, ctx => b.trace ctx ++ onSuccess b.evalNumber ctx fun _ => Bound.traceAll bs

def Bound.trace : Bound → Context α → List (Event α)
  | .series s, ctx => s.trace ctx
  | .number n, ctx => n.trace ctx
  | .absent, _ => []

def Node.traceAll : List Node → Context α → List (Event α)
  | [], _ => []
  | n :: ns, ctx => n.trace ctx ++ onSuccess n.eval ctx fun _ => Node.traceAll ns

end

/-- What happens in a call. -/
def StudyCallOf.trace (c : StudyCall) (ctx : Context α) : List (Event α) :=
  Bound.traceAll c.args ctx ++
    onSuccess (Bound.evalAll c.args) ctx fun _ => sights (c.args.filterMap Bound.source?)

def OptionNode.trace : OptionNode → Context α → List (Event α)
  | text _, _ => []
  | flag _, _ => []
  | number n, ctx => n.trace ctx
  | rgb channels, ctx => Node.traceAll (channels.take 4) ctx
  | newColor base alpha, ctx => base.trace ctx ++ onSuccess base.eval ctx fun _ => Node.offsetTrace alpha

def optionTrace : OptionNodes → Context α → List (Event α)
  | [], _ => []
  | o :: os, ctx => o.2.trace ctx ++ onSuccess o.2.eval ctx fun _ => optionTrace os

def Drawing.trace : Drawing → Context α → List (Event α)
  | plot value _ options _, ctx =>
    value.trace ctx ++ onSuccess value.eval ctx fun _ => optionTrace options
  | candle opening high low close _ options _, ctx =>
    opening.trace ctx ++ onSuccess opening.eval ctx fun _ ctx =>
      high.trace ctx ++ onSuccess high.eval ctx fun _ ctx =>
        low.trace ctx ++ onSuccess low.eval ctx fun _ ctx =>
          close.trace ctx ++ onSuccess close.eval ctx fun _ => optionTrace options
  | fill _ _ options, ctx => optionTrace options ctx
  | hline price _ options, ctx =>
    price.trace ctx ++ onSuccess price.eval ctx fun _ => optionTrace options
  | indicator _ _ _, _ => []

/-- What happens in an instruction. -/
def Op.trace : Op → Context α → List (Event α)
  | set bank id value, ctx =>
    value.trace ctx ++ onSuccess value.eval ctx fun v _ => [.wrote bank id v]
  | init bank id value, ctx =>
    if ((ctx.stores.bank bank).series id).isEmpty then
      value.trace ctx ++ onSuccess value.eval ctx fun v _ => [.wrote bank id v]
    else []
  | unpack call targets, ctx =>
    call.trace ctx ++ onSuccess call.eval ctx fun values _ =>
      (targets.zip values).map fun t => .wrote .bindings t.1 t.2
  | eval n, ctx => n.trace ctx
  | draw d, ctx => d.trace ctx

/-- What happens in instructions at a bar at which `plotted` has been plotted. -/
def Op.traceAll : List Op → Plotted α → Context α → List (Event α)
  | [], _, _ => []
  | o :: os, plotted, ctx =>
    o.trace ctx ++ onSuccess (o.exec plotted) ctx fun plotted => Op.traceAll os plotted

theorem Op.execAll_append (os ps : List Op) (plotted : Plotted α) :
    Op.execAll (os ++ ps) plotted = Op.execAll os plotted >>= Op.execAll ps := by
  induction os generalizing plotted with
  | nil => rfl
  | cons o os ih =>
    rw [List.cons_append, Op.execAll, Op.execAll, bind_assoc]
    exact congrArg _ (funext ih)

def fieldsTrace : List (String × Node) → Context α → List (Event α)
  | [], _ => []
  | f :: fs, ctx => f.2.trace ctx ++ onSuccess f.2.eval ctx fun _ => fieldsTrace fs

def Result.trace : Result → Context α → List (Event α)
  | single n, ctx => n.trace ctx
  | named fields, ctx => fieldsTrace fields ctx

/-- What happens in a step. -/
def Program.trace (p : Program) (ctx : Context α) : List (Event α) :=
  Op.traceAll p.ops [] ctx ++ onSuccess (Op.execAll p.ops []) ctx fun _ ctx =>
    p.result.elim [] (·.trace ctx)

/-! ## The trace of an expression -/

namespace Faithful

variable {β : Type} {es : List Effect} {m : EvalM α β} {tr : Context α → List (Event α)}

theorem after_sights (st : Stores α) (ss : List Source) (ctx : Context α) :
    st.after (BarScript.sights ss ctx) = st := by
  induction ss with
  | nil => rfl
  | cons s ss ih => exact ih

theorem slots_sights (ss : List Source) (ctx : Context α) :
    (BarScript.sights ss ctx).filterMap Event.slot? = [] := by
  simp [BarScript.sights, Event.slot?]

theorem view_eq {s : Source} {a : Bank × Nat} (h : s.slot? = some a) (ctx : Context α) :
    s.view ctx = (ctx.stores.slot a).full := by
  cases s <;> cases h <;> rfl

/-- A computation that brings series up to date, and then reads them. -/
theorem sights (hm : Faithful es m tr) (ss : List Source)
    (hwritten : ∀ {c x c'}, m c = .ok x c' → ∀ id n, .computed id n ∈ ss →
      ∃ y, .wrote .computed id y ∈ tr c) :
    Faithful es m fun c => tr c ++ onSuccess m c fun _ => BarScript.sights ss where
  stores h := by
    rw [onSuccess_ok h, Stores.after_append, after_sights, hm.stores h]
  order c := by
    rw [List.filterMap_append]
    cases hx : m c with
    | ok x c₁ => rw [onSuccess_ok hx, slots_sights, List.append_nil]; exact hm.order c
    | error g c₁ => rw [onSuccess_error hx, List.filterMap_nil, List.append_nil]; exact hm.order c
  shown {c before s v rest} h := by
    rcases split_append h with ⟨rest, h⟩ | ⟨mid, rfl, hnext⟩
    · exact hm.shown h
    · cases hx : m c with
      | error g c₁ => simp [onSuccess_error hx] at hnext
      | ok x c₁ =>
        rw [onSuccess_ok hx] at hnext
        obtain ⟨ss₁, ss₂, rfl, rfl, htail⟩ := List.map_eq_append_iff.1 hnext
        obtain ⟨_, ss₃, rfl, hsaw, -⟩ := List.map_eq_cons_iff.1 htail
        cases hsaw
        refine ⟨fun a ha => ?_, fun id n hs => ?_⟩
        · rw [Stores.after_append, ← hm.stores hx, view_eq ha]
          exact congrArg (fun st => (Stores.slot st a).full) (after_sights _ ss₁ c₁).symm
        · obtain ⟨y, hy⟩ := hwritten hx id n (hs ▸ by simp)
          exact ⟨y, List.mem_append_left _ hy⟩

theorem perform (c : StudyCall) {es : List Effect} {m : EvalM α (List α)}
    {tr : Context α → List (Event α)} (hm : Faithful es m tr) (f : List α → β) :
    Faithful (es ++ [.call c]) (do
      let nums ← m
      let ctx ← get
      match c.perform nums ctx with
      | (values, t) => do
        set (ctx.absorb t)
        Pure.pure (f values)) tr :=
  (hm.map fun nums {_ _ _} h => by cases h; rfl).mono (List.sublist_append_left _ _)

/-! ## Expressions -/

theorem written_source {id : Nat} {n : Node} {c c' : Context α}
    (h : (Source.computed id n).prepare c = .ok () c') :
    ∃ y, .wrote .computed id y ∈ (Source.computed id n).trace c := by
  rw [Source.prepare] at h
  obtain ⟨y, c₁, hy, -⟩ := eval_bind_ok h
  refine ⟨y, ?_⟩
  rw [Source.trace, onSuccess_ok hy]
  simp

/-- The computed series among the arguments have been written. -/
theorem written_bounds {bs : List Bound} {c c' : Context α} {nums : List α}
    (h : Bound.evalAll bs c = .ok nums c') {id : Nat} {n : Node}
    (hmem : .series (.computed id n) ∈ bs) : ∃ y, .wrote .computed id y ∈ Bound.traceAll bs c := by
  induction bs generalizing c c' nums with
  | nil => nomatch hmem
  | cons b bs ih =>
    rw [Bound.evalAll] at h
    obtain ⟨x, c₁, hx, h⟩ := eval_bind_ok h
    obtain ⟨xs, c₂, hxs, -⟩ := eval_bind_ok h
    rw [Bound.traceAll, onSuccess_ok hx]
    rcases List.mem_cons.1 hmem with rfl | hmem
    · rw [Bound.evalNumber] at hx
      obtain ⟨_, c₃, hprepare, -⟩ := eval_bind_ok hx
      rw [Bound.trace]
      exact (written_source hprepare).imp fun _ => List.mem_append_left _
    · exact (ih hxs hmem).imp fun _ => List.mem_append_right _

mutual

theorem node (n : Node) : Faithful n.effects n.eval (n.trace : Context α → _) := by
  cases n with
  | number l => rw [Node.eval]; exact .pure _
  | flag b => rw [Node.eval]; exact .pure _
  | na => rw [Node.eval]; exact .pure _
  | read source o =>
    rw [Node.eval, Node.effects]
    refine (offset o).bind fun k => ?_
    cases k with
    | none => exact (skipped _ source).mono (List.nil_sublist _)
    | some k =>
      refine ((prepare source).sights [source] fun h id n hs => ?_).map fun _ {_ _ _} h => by
        cases h; rfl
      obtain rfl := List.mem_singleton.1 hs
      exact written_source h
  | clock k o =>
    rw [Node.eval, Node.effects]
    refine (offset o).map fun k c y c' h => ?_
    cases k <;> cases h <;> rfl
  | barIndex =>
    rw [Node.eval]
    exact .quiet fun h => by cases h; rfl
  | unary op operand =>
    rw [Node.eval, Node.effects]
    exact (node operand).map fun _ {_ _ _} h => by cases h; rfl
  | binary op left right =>
    rw [Node.eval, Node.effects]
    refine (node left).bind fun a => ?_
    have hr := fun f : α → α => (node right).map (f := fun b => Pure.pure (f b))
      fun _ {_ _ _} h => by cases h; rfl
    have constant (x : α) : Faithful right.effects (Pure.pure x : EvalM α α) fun _ => [] :=
      (pure x).mono (List.nil_sublist _)
    cases op with
    | and =>
      cases ha : Arith.truth a
      · simp only [BinaryOp.decided, ha]
        exact constant 0
      · simp only [BinaryOp.decided, ha]
        exact hr _
    | or =>
      cases ha : Arith.truth a
      · simp only [BinaryOp.decided, ha]
        exact hr _
      · simp only [BinaryOp.decided, ha]
        exact constant 1
    | _ => exact hr _
  | ternary cond yes no =>
    rw [Node.eval, Node.effects]
    refine (node cond).bind fun a => ?_
    exact .ite ((node yes).mono (List.sublist_append_left _ _))
      ((node no).mono (List.sublist_append_right _ _))
  | study c =>
    obtain ⟨study, args, handle⟩ := c
    rw [Node.eval, Node.effects]
    exact perform ⟨study, args, handle⟩ ((bounds args).sights _ fun h id n hs => by
      obtain ⟨b, hb, hs⟩ := List.mem_filterMap.1 hs
      cases b <;> cases hs
      exact written_bounds h hb) (List.headD · Arith.nan)
  | math f args =>
    rw [Node.eval, Node.effects]
    exact (nodes args).map fun _ {_ _ _} h => by cases h; rfl
  | isNa operand =>
    rw [Node.eval, Node.effects]
    exact (node operand).map fun _ {_ _ _} h => by cases h; rfl
  | nz operand replacement =>
    rw [Node.eval, Node.effects]
    refine (node operand).bind fun v => ?_
    exact .ite (node replacement) ((pure v).mono (List.nil_sublist _))

theorem offset (o : Option Node) :
    Faithful (Node.offsetEffects o) (Node.evalOffset o) (Node.offsetTrace o : Context α → _) := by
  cases o with
  | none => rw [Node.evalOffset]; exact .pure _
  | some n =>
    rw [Node.evalOffset, Node.offsetEffects]
    refine (node n).map fun v {c k c'} h => ?_
    obtain ⟨ctx, c₁, hget, h⟩ := eval_bind_ok h
    cases hget
    cases hk : BarScript.historyOffset c.bar v with
    | ok k => rw [hk] at h; cases h; rfl
    | error failure => rw [hk] at h; cases h

theorem prepare (s : Source) : Faithful s.effects s.prepare (s.trace : Context α → _) := by
  cases s with
  | price p => rw [Source.prepare]; exact .pure _
  | slot bank id => rw [Source.prepare]; exact .pure _
  | computed id value =>
    rw [Source.prepare, Source.effects]
    exact (node value).bind fun v => setSlot .computed id v

theorem bounds (bs : List Bound) :
    Faithful (Bound.allEffects bs) (Bound.evalAll bs) (Bound.traceAll bs : Context α → _) := by
  cases bs with
  | nil => rw [Bound.evalAll]; exact .pure _
  | cons b bs =>
    rw [Bound.evalAll, Bound.allEffects]
    exact (bound b).bind fun v => (bounds bs).map fun _ {_ _ _} h => by cases h; rfl

theorem bound (b : Bound) : Faithful b.effects b.evalNumber (b.trace : Context α → _) := by
  cases b with
  | series s =>
    rw [Bound.evalNumber, Bound.effects]
    exact (prepare s).map fun _ {_ _ _} h => by cases h; rfl
  | number n =>
    rw [Bound.evalNumber, Bound.effects]
    exact node n
  | absent => rw [Bound.evalNumber]; exact .pure _

theorem nodes (ns : List Node) :
    Faithful (Node.allEffects ns) (Node.evalAll ns) (Node.traceAll ns : Context α → _) := by
  cases ns with
  | nil => rw [Node.evalAll]; exact .pure _
  | cons n ns =>
    rw [Node.evalAll, Node.allEffects]
    exact (node n).bind fun v => (nodes ns).map fun _ {_ _ _} h => by cases h; rfl

end

/-! ## Instructions -/

theorem call (c : StudyCall) : Faithful c.effects c.eval (c.trace : Context α → _) :=
  perform c ((bounds c.args).sights _ fun h id n hs => by
    obtain ⟨b, hb, hs⟩ := List.mem_filterMap.1 hs
    cases b <;> cases hs
    exact written_bounds h hb) id

theorem option (o : OptionNode) : Faithful o.effects o.eval (o.trace : Context α → _) := by
  induction o with
  | text s => rw [OptionNode.eval]; exact .pure _
  | flag b => rw [OptionNode.eval]; exact .pure _
  | number n =>
    rw [OptionNode.eval, OptionNode.effects]
    exact (node n).map fun _ {_ _ _} h => by cases h; rfl
  | rgb channels =>
    rw [OptionNode.eval, OptionNode.effects, Node.allEffects_eq]
    refine ((nodes (channels.take 4)).mono ?_).map fun _ {_ _ _} h => by cases h; rfl
    rw [Node.allEffects_eq]
    conv_rhs => rw [← List.take_append_drop 4 channels, List.flatMap_append]
    exact List.sublist_append_left _ _
  | newColor base alpha ih =>
    rw [OptionNode.eval, OptionNode.effects]
    refine ih.bind fun b => ?_
    cases alpha with
    | none => exact .quiet fun h => by cases h; rfl
    | some n =>
      refine (node n).map fun v {c x c'} h => ?_
      cases h
      rfl

theorem options (os : OptionNodes) (given : Options α) :
    Faithful (optionEffects os) (evalOptions os given) (optionTrace os) := by
  induction os generalizing given with
  | nil => exact .pure _
  | cons o os ih =>
    rw [evalOptions, optionEffects, List.flatMap_cons]
    exact (option o.2).bind fun v => ih _

theorem drawing (d : Drawing) (plotted : Plotted α) :
    Faithful d.effects (d.perform plotted) d.trace := by
  have draw (f : Options α → Outputs α → Int → Outputs α) (os : OptionNodes) (x : Plotted α) :
      Faithful (optionEffects os) (do
        let options ← evalOptions os ∅
        drawAt (f options)
        return x) (optionTrace os) :=
    (options os ∅).map fun _ {_ _ _} h => by cases h; rfl
  cases d with
  | plot value title os char =>
    rw [Drawing.effects]
    exact (node value).bind fun v => draw _ os _
  | candle opening high low close title os bar =>
    rw [Drawing.effects]
    exact (node opening).bind fun a => (node high).bind fun b => (node low).bind fun c =>
      (node close).bind fun d => draw _ os _
  | fill plot1 plot2 os => exact draw _ os _
  | hline price title os =>
    rw [Drawing.effects]
    exact (node price).bind fun v => draw _ os _
  | indicator title shortTitle overlay => exact .quiet fun h => by cases h; rfl

theorem op (o : Op) (plotted : Plotted α) : Faithful o.effects (o.exec plotted) o.trace := by
  cases o with
  | set bank id value =>
    rw [Op.effects]
    exact (node value).bind fun v => (setSlot bank id v).map fun _ {_ _ _} h => by cases h; rfl
  | init bank id value =>
    rw [Op.effects]
    have hset : Faithful (value.effects ++ [.set bank id]) (do
        let v ← value.eval
        BarScript.setSlot bank id v
        return plotted : EvalM α (Plotted α)) fun c => value.trace c ++ onSuccess value.eval c fun v _ =>
          [.wrote bank id v] :=
      (node value).bind fun v => (setSlot bank id v).map fun _ {_ _ _} h => by cases h; rfl
    exact hset.onlyIf (fun c => ((c.stores.bank bank).series id).isEmpty = true) plotted
  | unpack call targets =>
    rw [Op.effects]
    exact (Faithful.call call).bind fun values =>
      (setBindings targets values).map fun _ {_ _ _} h => by cases h; rfl
  | eval n =>
    exact (node n).map fun _ {_ _ _} h => by cases h; rfl
  | draw d => exact drawing d plotted

theorem ops (os : List Op) (plotted : Plotted α) :
    Faithful (os.flatMap Op.effects) (Op.execAll os plotted) (Op.traceAll os plotted) := by
  induction os generalizing plotted with
  | nil => exact .pure _
  | cons o os ih =>
    rw [List.flatMap_cons]
    exact (op o plotted).bind fun p => ih p

theorem fields (fs : List (String × Node)) :
    Faithful (fs.flatMap (·.2.effects)) (evalFields fs) (fieldsTrace fs : Context α → _) := by
  induction fs with
  | nil => exact .pure _
  | cons f fs ih =>
    rw [List.flatMap_cons]
    exact (node f.2).bind fun v => ih.map fun _ {_ _ _} h => by cases h; rfl

theorem output (p : Program) (plotted : Plotted α) :
    Faithful (p.result.elim [] Result.effects) (p.output plotted)
      fun ctx => p.result.elim [] (·.trace ctx) := by
  rw [Program.output]
  rcases p.result with _ | ⟨n⟩ | ⟨fs⟩
  · exact .pure _
  · exact (node n).map fun _ {_ _ _} h => by cases h; rfl
  · exact (fields fs).map fun _ {_ _ _} h => by cases h; rfl

end Faithful

/-- **The trace of a step** is what the step does. -/
theorem Program.trace_faithful (p : Program) :
    Faithful p.effects (p.step : EvalM α (StepOutput α)) p.trace :=
  (Faithful.ops p.ops []).bind fun plotted => Faithful.output p plotted

end BarScript
