import BarScript.Proofs.Spots
import BarScript.Proofs.Stopped

/-!
# The offsets that a step asks for

`Program.asks p ctx` lists the offsets of the history accesses that are made in the step of a
program, with their values, in the order in which they are evaluated. They decide how the step ends
(`Asks`, `Program.step_asks`): it completes if none of them is below zero, and it fails for the last
one otherwise. Nothing else in an evaluation fails.
-/

namespace BarScript

variable {α : Type}

/-- The offset of a history access that has been evaluated. -/
structure Ask (α : Type) where
  offset : Node
  value : α

/-- What a computation that succeeds is followed by in a log. -/
def followed {β γ : Type} (m : EvalM α β) (ctx : Context α) (next : β → Context α → List γ) :
    List γ :=
  match m ctx with
  | .ok x ctx => next x ctx
  | .error _ _ => []

theorem followed_ok {β γ : Type} {m : EvalM α β} {c c' : Context α} {x : β}
    {next : β → Context α → List γ} (h : m c = .ok x c') : followed m c next = next x c' := by
  rw [followed, h]

theorem followed_error {β γ : Type} {m : EvalM α β} {c c' : Context α} {failure : Failure}
    {next : β → Context α → List γ} (h : m c = .error failure c') : followed m c next = [] := by
  rw [followed, h]

variable [Arith α]

mutual

/-- The offsets that are asked for in the evaluation of an expression. -/
def Node.asks : Node → Context α → List (Ask α)
  | .number _, _ => []
  | .flag _, _ => []
  | .na, _ => []
  | .read source offset, ctx =>
    Node.offsetAsks offset ctx ++ followed (Node.evalOffset offset) ctx fun k ctx =>
      if k.isSome then source.asks ctx else []
  | .clock _ offset, ctx => Node.offsetAsks offset ctx
  | .barIndex, _ => []
  | .unary _ operand, ctx => operand.asks ctx
  | .binary op left right, ctx =>
    left.asks ctx ++ followed left.eval ctx fun a ctx =>
      if op.decided a then [] else right.asks ctx
  | .ternary cond yes no, ctx =>
    cond.asks ctx ++ followed cond.eval ctx fun a ctx =>
      if Arith.truth a then yes.asks ctx else no.asks ctx
  | .study ⟨_, args, _⟩, ctx => Bound.allAsks args ctx
  | .math _ args, ctx => Node.allAsks args ctx
  | .isNa operand, ctx => operand.asks ctx
  | .nz operand replacement, ctx =>
    operand.asks ctx ++ followed operand.eval ctx fun v ctx =>
      if Arith.isNaN v then replacement.asks ctx else []

/-- The offset of a reading comes after those in it. -/
def Node.offsetAsks : Option Node → Context α → List (Ask α)
  | none, _ => []
  | some n, ctx => n.asks ctx ++ followed n.eval ctx fun v _ => [⟨n, v⟩]

def Source.asks : Source → Context α → List (Ask α)
  | .computed _ value, ctx => value.asks ctx
  | .price _, _ => []
  | .slot _ _, _ => []

def Bound.allAsks : List Bound → Context α → List (Ask α)
  | [], _ => []
  | b :: bs, ctx => b.asks ctx ++ followed b.evalNumber ctx fun _ => Bound.allAsks bs

def Bound.asks : Bound → Context α → List (Ask α)
  | .series s, ctx => s.asks ctx
  | .number n, ctx => n.asks ctx
  | .absent, _ => []

def Node.allAsks : List Node → Context α → List (Ask α)
  | [], _ => []
  | n :: ns, ctx => n.asks ctx ++ followed n.eval ctx fun _ => Node.allAsks ns

end

/-- The offsets that are asked for in the value of an option. -/
def OptionNode.asks : OptionNode → Context α → List (Ask α)
  | text _, _ => []
  | flag _, _ => []
  | number n, ctx => n.asks ctx
  | rgb channels, ctx => Node.allAsks (channels.take 4) ctx
  | newColor base alpha, ctx =>
    base.asks ctx ++ followed base.eval ctx fun _ ctx => alpha.elim [] (·.asks ctx)

def optionAsks : OptionNodes → Context α → List (Ask α)
  | [], _ => []
  | o :: os, ctx => o.2.asks ctx ++ followed o.2.eval ctx fun _ => optionAsks os

def Drawing.asks : Drawing → Context α → List (Ask α)
  | plot value _ options _, ctx =>
    value.asks ctx ++ followed value.eval ctx fun _ => optionAsks options
  | candle opening high low close _ options _, ctx =>
    opening.asks ctx ++ followed opening.eval ctx fun _ ctx =>
      high.asks ctx ++ followed high.eval ctx fun _ ctx =>
        low.asks ctx ++ followed low.eval ctx fun _ ctx =>
          close.asks ctx ++ followed close.eval ctx fun _ => optionAsks options
  | fill _ _ options, ctx => optionAsks options ctx
  | hline price _ options, ctx =>
    price.asks ctx ++ followed price.eval ctx fun _ => optionAsks options
  | indicator _ _ _, _ => []

/-- The offsets that are asked for in an instruction. -/
def Op.asks : Op → Context α → List (Ask α)
  | set _ _ value, ctx => value.asks ctx
  | init bank id value, ctx =>
    if ((ctx.stores.bank bank).series id).isEmpty then value.asks ctx else []
  | unpack call _, ctx => Bound.allAsks call.args ctx
  | eval n, ctx => n.asks ctx
  | draw d, ctx => d.asks ctx

/-- The offsets that are asked for in instructions at a bar at which `plotted` has been plotted. -/
def Op.allAsks : List Op → Plotted α → Context α → List (Ask α)
  | [], _, _ => []
  | o :: os, plotted, ctx =>
    o.asks ctx ++ followed (o.exec plotted) ctx fun plotted => Op.allAsks os plotted

def fieldsAsks : List (String × Node) → Context α → List (Ask α)
  | [], _ => []
  | f :: fs, ctx => f.2.asks ctx ++ followed f.2.eval ctx fun _ => fieldsAsks fs

def Result.asks : Result → Context α → List (Ask α)
  | single n, ctx => n.asks ctx
  | named fields, ctx => fieldsAsks fields ctx

/-- The offsets that are asked for in a step. -/
def Program.asks (p : Program) (ctx : Context α) : List (Ask α) :=
  Op.allAsks p.ops [] ctx ++ followed (Op.execAll p.ops []) ctx fun _ ctx =>
    p.result.elim [] (·.asks ctx)

/-! ## How a computation ends -/

/-- The offset is available and below zero. -/
def Ask.Negative (a : Ask α) : Prop := Arith.isNaN a.value = false ∧ a.value < 0

/-- How an offset below zero is refused. -/
def Ask.refusal (a : Ask α) (bar : Nat) : Failure :=
  let offset := Arith.text a.value
  .script bar s!"history offset must not be negative, got {offset}"

/-- `Asks spots m log`: the offsets that `m` asks for are in the log. They stand in `spots` and have
been evaluated at the bar of the computation. It completes if none of them is below zero, and fails
if the last one is. -/
structure Asks {β : Type} (spots : List Spot) (m : EvalM α β)
    (log : Context α → List (Ask α)) : Prop where
  origin : ∀ c, ∀ a ∈ log c, .offset a.offset ∈ spots ∧
    ∃ d d', d.bar = c.bar ∧ a.offset.eval d = .ok a.value d'
  ok : ∀ {c x c'}, m c = .ok x c' → c'.bar = c.bar ∧ ∀ a ∈ log c, ¬ a.Negative
  error : ∀ {c failure c'}, m c = .error failure c' → ∃ before a, log c = before ++ [a] ∧
    (∀ b ∈ before, ¬ b.Negative) ∧ a.Negative ∧ failure = a.refusal c.bar

namespace Asks

variable {β γ : Type} {ss ss' : List Spot} {m : EvalM α β} {f : β → EvalM α γ}
variable {log : Context α → List (Ask α)}

theorem mono (h : Asks ss m log) (hss : ss ⊆ ss') : Asks ss' m log :=
  { h with origin := fun c a ha => (h.origin c a ha).imp_left fun hmem => hss hmem }

/-- Nothing is asked for, and nothing fails. -/
theorem quiet (hm : ∀ c, ∃ x c', m c = .ok x c' ∧ c'.bar = c.bar) : Asks ss m fun _ => [] where
  origin _ _ := nofun
  ok {c _ _} h := by
    obtain ⟨x, c', hx, hbar⟩ := hm c
    cases h.symm.trans hx
    exact ⟨hbar, nofun⟩
  error {c _ _} h := by
    obtain ⟨x, c', hx, -⟩ := hm c
    cases h.symm.trans hx

theorem pure (x : β) : Asks ss (pure x : EvalM α β) fun _ => [] := quiet fun c => ⟨x, c, rfl, rfl⟩

/-- **One computation after another** asks for what the one asks for and then for what the other
does. -/
theorem bind {log' : β → Context α → List (Ask α)} (hm : Asks ss m log)
    (hf : ∀ x, Asks ss' (f x) (log' x)) :
    Asks (ss ++ ss') (m >>= f) fun c => log c ++ followed m c log' where
  origin c a ha := by
    rcases List.mem_append.1 ha with ha | ha
    · exact (hm.origin c a ha).imp_left (List.mem_append_left _)
    · cases hx : m c with
      | error failure c₁ => rw [followed_error hx] at ha; cases ha
      | ok x c₁ =>
        rw [followed_ok hx] at ha
        obtain ⟨hmem, d, d', hbar, heval⟩ := (hf x).origin c₁ a ha
        exact ⟨List.mem_append_right _ hmem, d, d', hbar.trans (hm.ok hx).1, heval⟩
  ok {c y c'} h := by
    obtain ⟨x, c₁, hx, hy⟩ := eval_bind_ok h
    obtain ⟨hbar, hlog⟩ := hm.ok hx
    obtain ⟨hbar', hlog'⟩ := (hf x).ok hy
    rw [followed_ok hx]
    exact ⟨hbar'.trans hbar, List.forall_mem_append.2 ⟨hlog, hlog'⟩⟩
  error {c failure c'} h := by
    rcases eval_bind_error h with hfail | ⟨x, c₁, hx, hfail⟩
    · rw [followed_error hfail, List.append_nil]
      exact hm.error hfail
    · obtain ⟨hbar, hlog⟩ := hm.ok hx
      obtain ⟨before, a, hsplit, hbefore, ha, hfailure⟩ := (hf x).error hfail
      refine ⟨log c ++ before, a, ?_, List.forall_mem_append.2 ⟨hlog, hbefore⟩, ha,
        hbar ▸ hfailure⟩
      rw [followed_ok hx, hsplit, List.append_assoc]

/-- What comes after asks for nothing. -/
theorem map (hm : Asks ss m log) (hf : ∀ x c, ∃ y c', f x c = .ok y c' ∧ c'.bar = c.bar) :
    Asks ss (m >>= f) log := by
  have h : Asks (ss ++ []) (m >>= f) fun c => log c ++ followed m c fun _ _ => [] :=
    hm.bind fun x => quiet (hf x)
  simp only [List.append_nil] at h
  convert h using 2 with c
  cases hx : m c with
  | ok x c₁ => rw [followed_ok hx, List.append_nil]
  | error failure c₁ => rw [followed_error hx, List.append_nil]

/-- One of two computations. -/
theorem ite {m' : EvalM α β} {log' : Context α → List (Ask α)} {b : Prop} [Decidable b]
    (hm : Asks ss m log) (hm' : Asks ss m' log') :
    Asks ss (if b then m else m') fun c => if b then log c else log' c := by
  split
  · exact hm
  · exact hm'

/-- A computation that is made in some contexts only. -/
theorem onlyIf (hm : Asks ss m log) (b : Context α → Prop) [DecidablePred b] (x : β) :
    Asks ss (do if b (← get) then m else Pure.pure x) fun c => if b c then log c else [] where
  origin c := by
    split
    · exact hm.origin c
    · exact nofun
  ok {c _ _} h := by
    replace h : (if b c then m else Pure.pure x) c = _ := h
    split at h
    · rw [if_pos ‹_›]; exact hm.ok h
    · rw [if_neg ‹_›]; cases h; exact ⟨rfl, nofun⟩
  error {c _ _} h := by
    replace h : (if b c then m else Pure.pure x) c = _ := h
    split at h
    · rw [if_pos ‹_›]; exact hm.error h
    · cases h

/-! ## Expressions -/

/-- An offset is refused if it is below zero, and only then. -/
theorem historyOffset_ask (a : Ask α) (bar : Nat) :
    (¬ a.Negative ∧ ∃ k, historyOffset bar a.value = .ok k) ∨
      (a.Negative ∧ historyOffset bar a.value = .error (a.refusal bar)) := by
  unfold historyOffset Ask.Negative
  by_cases hnan : Arith.isNaN a.value = true
  · exact .inl ⟨by simp [hnan], none, if_pos hnan⟩
  · rw [if_neg hnan]
    by_cases hneg : a.value < 0
    · exact .inr ⟨⟨by simpa using hnan, hneg⟩, if_pos hneg⟩
    · exact .inl ⟨fun h => hneg h.2, some (Arith.toCount a.value), if_neg hneg⟩

theorem evalOffset_ok {n : Node} {v : α} {c c₁ : Context α} (h : n.eval c = .ok v c₁) :
    Node.evalOffset (some n) c = match historyOffset c₁.bar v with
      | .ok k => .ok k c₁
      | .error failure => .error failure c₁ := by
  rw [Node.evalOffset]
  refine eval_bind_of_ok h ?_
  show (match historyOffset c₁.bar v with
    | .ok k => (Pure.pure k : EvalM α _)
    | .error failure => throw failure) c₁ = _
  cases historyOffset c₁.bar v <;> rfl

/-- **The offset of a reading** is asked for when it has been evaluated, and refused below zero. -/
theorem offset_some {n : Node} (hn : Asks n.spots (n.eval : EvalM α α) n.asks) :
    Asks (Node.offsetSpots (some n)) (Node.evalOffset (some n) : EvalM α _)
      (Node.offsetAsks (some n)) where
  origin c a ha := by
    rw [Node.offsetAsks] at ha
    rw [Node.offsetSpots]
    rcases List.mem_append.1 ha with ha | ha
    · exact (hn.origin c a ha).imp_left (List.mem_append_left _)
    · cases hv : n.eval c with
      | error failure c₁ => rw [followed_error hv] at ha; cases ha
      | ok v c₁ =>
        rw [followed_ok hv] at ha
        obtain rfl := List.mem_singleton.1 ha
        exact ⟨by simp, c, c₁, rfl, hv⟩
  ok {c k c'} h := by
    rw [Node.offsetAsks]
    cases hv : n.eval c with
    | error failure c₁ =>
      rw [Node.evalOffset] at h
      obtain ⟨_, _, hok, -⟩ := eval_bind_ok h
      cases hv.symm.trans hok
    | ok v c₁ =>
      obtain ⟨hbar, hlog⟩ := hn.ok hv
      rw [evalOffset_ok hv] at h
      rcases historyOffset_ask ⟨n, v⟩ c₁.bar with ⟨hnot, k', hk⟩ | ⟨-, hk⟩
      · rw [hk] at h
        cases h
        rw [followed_ok hv]
        exact ⟨hbar, List.forall_mem_append.2 ⟨hlog, List.forall_mem_singleton.2 hnot⟩⟩
      · rw [hk] at h
        cases h
  error {c failure c'} h := by
    rw [Node.offsetAsks]
    cases hv : n.eval c with
    | error failure' c₁ =>
      rw [Node.evalOffset] at h
      rcases eval_bind_error h with hfail | ⟨_, _, hok, -⟩
      · rw [followed_error hv, List.append_nil]
        exact hn.error hfail
      · cases hv.symm.trans hok
    | ok v c₁ =>
      obtain ⟨hbar, hlog⟩ := hn.ok hv
      rw [evalOffset_ok hv] at h
      rcases historyOffset_ask ⟨n, v⟩ c₁.bar with ⟨-, k', hk⟩ | ⟨hnegative, hk⟩
      · rw [hk] at h
        cases h
      · rw [hk] at h
        cases h
        rw [followed_ok hv]
        exact ⟨n.asks c, ⟨n, v⟩, rfl, hlog, hnegative, by rw [hbar]⟩

/-- A call asks for what its arguments ask for. -/
theorem call (k : StudyCall) (hargs : Asks (Bound.allSpots k.args) (Bound.evalAll k.args)
    (Bound.allAsks k.args : Context α → _)) (g : List α → β) :
    Asks (Bound.allSpots k.args) (do
      let nums ← Bound.evalAll k.args
      let ctx ← get
      match k.perform nums ctx with
      | (values, t) => do
        set (ctx.absorb t)
        Pure.pure (g values) : EvalM α β) (Bound.allAsks k.args) :=
  hargs.map fun nums c => ⟨_, c.absorb (k.perform nums c).2, rfl, rfl⟩

mutual

theorem node (n : Node) : Asks n.spots (n.eval : EvalM α α) n.asks := by
  cases n with
  | number l => rw [Node.eval]; exact .pure _
  | flag b => rw [Node.eval]; exact .pure _
  | na => rw [Node.eval]; exact .pure _
  | read source o =>
    rw [Node.eval, Node.spots]
    refine (offset o).bind fun k => ?_
    cases k with
    | none => exact .pure _
    | some k => exact (prepare source).map fun _ c => ⟨_, c, rfl, rfl⟩
  | clock k o =>
    rw [Node.eval, Node.spots]
    refine (offset o).map fun k c => ?_
    cases k <;> exact ⟨_, c, rfl, rfl⟩
  | barIndex =>
    rw [Node.eval]
    exact .quiet fun c => ⟨_, c, rfl, rfl⟩
  | unary op operand =>
    rw [Node.eval, Node.spots]
    exact (node operand).map fun _ c => ⟨_, c, rfl, rfl⟩
  | binary op left right =>
    rw [Node.eval, Node.spots]
    refine (node left).bind fun a => ?_
    have hr := fun f : α → α => (node right).map (f := fun b => Pure.pure (f b))
      fun _ c => ⟨_, c, rfl, rfl⟩
    cases op with
    | and =>
      cases ha : Arith.truth a
      · simp only [BinaryOp.decided, ha]
        exact .pure 0
      · simp only [BinaryOp.decided, ha]
        exact hr _
    | or =>
      cases ha : Arith.truth a
      · simp only [BinaryOp.decided, ha]
        exact hr _
      · simp only [BinaryOp.decided, ha]
        exact .pure 1
    | _ => exact hr _
  | ternary cond yes no =>
    rw [Node.eval, Node.spots]
    refine (node cond).bind fun a => ?_
    exact .ite ((node yes).mono (List.subset_append_left _ _))
      ((node no).mono (List.subset_append_right _ _))
  | study c =>
    obtain ⟨study, args, handle⟩ := c
    rw [Node.eval, Node.spots]
    exact (call ⟨study, args, handle⟩ (bounds args) (List.headD · Arith.nan)).mono
      (List.subset_append_left _ _)
  | math f args =>
    rw [Node.eval, Node.spots]
    exact ((nodes args).map fun _ c => ⟨_, c, rfl, rfl⟩).mono (List.subset_append_left _ _)
  | isNa operand =>
    rw [Node.eval, Node.spots]
    exact (node operand).map fun _ c => ⟨_, c, rfl, rfl⟩
  | nz operand replacement =>
    rw [Node.eval, Node.spots]
    exact (node operand).bind fun v => .ite (node replacement) (.pure v)

theorem offset (o : Option Node) :
    Asks (Node.offsetSpots o) (Node.evalOffset o : EvalM α _) (Node.offsetAsks o) := by
  cases o with
  | none => rw [Node.evalOffset]; exact .pure _
  | some n => exact offset_some (node n)

theorem prepare (s : Source) : Asks s.spots (s.prepare : EvalM α _) s.asks := by
  cases s with
  | price p => rw [Source.prepare]; exact .pure _
  | slot bank id => rw [Source.prepare]; exact .pure _
  | computed id value =>
    rw [Source.prepare, Source.spots]
    exact (node value).map fun _ c => ⟨_, _, rfl, rfl⟩

theorem bounds (bs : List Bound) :
    Asks (Bound.allSpots bs) (Bound.evalAll bs : EvalM α _) (Bound.allAsks bs) := by
  cases bs with
  | nil => rw [Bound.evalAll]; exact .pure _
  | cons b bs =>
    rw [Bound.evalAll, Bound.allSpots]
    exact (bound b).bind fun v => (bounds bs).map fun _ c => ⟨_, c, rfl, rfl⟩

theorem bound (b : Bound) : Asks b.spots (b.evalNumber : EvalM α _) b.asks := by
  cases b with
  | series s =>
    rw [Bound.evalNumber, Bound.spots]
    exact (prepare s).map fun _ c => ⟨_, c, rfl, rfl⟩
  | number n =>
    rw [Bound.evalNumber, Bound.spots]
    exact node n
  | absent => rw [Bound.evalNumber]; exact .pure _

theorem nodes (ns : List Node) :
    Asks (Node.allSpots ns) (Node.evalAll ns : EvalM α _) (Node.allAsks ns) := by
  cases ns with
  | nil => rw [Node.evalAll]; exact .pure _
  | cons n ns =>
    rw [Node.evalAll, Node.allSpots]
    exact (node n).bind fun v => (nodes ns).map fun _ c => ⟨_, c, rfl, rfl⟩

end

/-! ## Instructions -/

theorem option (o : OptionNode) : Asks o.spots (o.eval : EvalM α _) o.asks := by
  induction o with
  | text s => rw [OptionNode.eval]; exact .pure _
  | flag b => rw [OptionNode.eval]; exact .pure _
  | number n =>
    rw [OptionNode.eval, OptionNode.spots]
    exact (node n).map fun _ c => ⟨_, c, rfl, rfl⟩
  | rgb channels =>
    rw [OptionNode.eval, OptionNode.spots]
    have htake : Node.allSpots (channels.take 4) ⊆ Node.allSpots channels := by
      rw [Node.allSpots_eq, Node.allSpots_eq]
      exact fun pl hpl => by
        obtain ⟨n, hn, hpl⟩ := List.mem_flatMap.1 hpl
        exact List.mem_flatMap.2 ⟨n, List.mem_of_mem_take hn, hpl⟩
    exact ((nodes (channels.take 4)).mono htake).map fun _ c => ⟨_, c, rfl, rfl⟩
  | newColor base alpha ih =>
    rw [OptionNode.eval, OptionNode.spots]
    refine ih.bind fun b => ?_
    cases alpha with
    | none => exact .quiet fun c => ⟨_, c, rfl, rfl⟩
    | some n => exact (node n).map fun v c => ⟨_, c, rfl, rfl⟩

theorem options (os : OptionNodes) (given : Options α) :
    Asks (optionSpots os) (evalOptions os given) (optionAsks os) := by
  induction os generalizing given with
  | nil => exact .pure _
  | cons o os ih =>
    rw [evalOptions, optionSpots, List.flatMap_cons]
    exact (option o.2).bind fun v => ih _

theorem drawing (d : Drawing) (plotted : Plotted α) :
    Asks d.spots (d.perform plotted) d.asks := by
  have draw (f : Options α → Outputs α → Int → Outputs α) (os : OptionNodes) (x : Plotted α) :
      Asks (optionSpots os) (do
        let options ← evalOptions os ∅
        drawAt (f options)
        return x) (optionAsks os) :=
    (options os ∅).map fun o c => ⟨x, { c with outputs := f o c.outputs c.now }, rfl, rfl⟩
  cases d with
  | plot value title os char =>
    rw [Drawing.spots]
    exact (node value).bind fun v => draw _ os _
  | candle opening high low close title os bar =>
    rw [Drawing.spots]
    exact (node opening).bind fun a => (node high).bind fun b => (node low).bind fun c =>
      (node close).bind fun d => draw _ os _
  | fill plot1 plot2 os => exact draw _ os _
  | hline price title os =>
    rw [Drawing.spots]
    exact (node price).bind fun v => draw _ os _
  | indicator title shortTitle overlay =>
    exact .quiet fun c =>
      ⟨_, { c with outputs := c.outputs.indicator title shortTitle overlay }, rfl, rfl⟩

theorem op (o : Op) (plotted : Plotted α) : Asks o.spots (o.exec plotted) o.asks := by
  have assign (bank : Bank) (id : Nat) (value : Node) : Asks value.spots (do
      let v ← value.eval
      setSlot bank id v
      return plotted : EvalM α (Plotted α)) value.asks :=
    (node value).map fun v c =>
      ⟨plotted, { c with stores := c.stores.set bank id v }, rfl, rfl⟩
  cases o with
  | set bank id value => exact assign bank id value
  | init bank id value =>
    exact (assign bank id value).onlyIf
      (fun c => ((c.stores.bank bank).series id).isEmpty = true) plotted
  | unpack k targets =>
    have hcall : Asks (Bound.allSpots k.args) (k.eval : EvalM α _) (Bound.allAsks k.args) :=
      call k (bounds k.args) id
    refine (hcall.map fun values c => ?_).mono (List.subset_append_left _ _)
    exact ⟨plotted, { c with
      stores := (targets.zip values).foldl (fun s t => s.set .bindings t.1 t.2) c.stores },
      rfl, rfl⟩
  | eval n => exact (node n).map fun _ c => ⟨plotted, c, rfl, rfl⟩
  | draw d => exact drawing d plotted

theorem ops (os : List Op) (plotted : Plotted α) :
    Asks (os.flatMap Op.spots) (Op.execAll os plotted) (Op.allAsks os plotted) := by
  induction os generalizing plotted with
  | nil => exact .pure _
  | cons o os ih =>
    rw [List.flatMap_cons]
    exact (op o plotted).bind fun p => ih p

theorem fields (fs : List (String × Node)) :
    Asks (fs.flatMap (·.2.spots)) (evalFields fs : EvalM α _) (fieldsAsks fs) := by
  induction fs with
  | nil => exact .pure _
  | cons f fs ih =>
    rw [List.flatMap_cons]
    exact (node f.2).bind fun v => ih.map fun _ c => ⟨_, c, rfl, rfl⟩

theorem output (p : Program) (plotted : Plotted α) :
    Asks (p.result.elim [] Result.spots) (p.output plotted)
      fun ctx => p.result.elim [] (·.asks ctx) := by
  rw [Program.output]
  rcases p.result with _ | ⟨n⟩ | ⟨fs⟩
  · exact .pure _
  · exact (node n).map fun _ c => ⟨_, c, rfl, rfl⟩
  · exact (fields fs).map fun _ c => ⟨_, c, rfl, rfl⟩

end Asks

/-- **The offsets of a step** decide how it ends. -/
theorem Program.step_asks (p : Program) :
    Asks p.spots (p.step : EvalM α (StepOutput α)) p.asks :=
  (Asks.ops p.ops []).bind fun plotted => Asks.output p plotted

end BarScript
