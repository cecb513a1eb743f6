import Mathlib.Data.List.Pairwise
import BarScript.Script.Program

/-!
# The effects of a program

`Program.effects` lists what one step of a program may do to the stores and to the indicators, in
the order of evaluation: every slot it may write and every indicator call it may make. A step does
part of the list, since operands, branches and initial values are evaluated only where they are
needed, and it never goes back in it. Drawings are no effects here.
-/

namespace BarScript

inductive Effect where
  | set (bank : Bank) (id : Nat)
  | call (c : StudyCall)

mutual

/-- The effects of evaluating an expression. -/
def Node.effects : Node → List Effect
  | .number _ => []
  | .flag _ => []
  | .na => []
  | .read source offset => Node.offsetEffects offset ++ source.effects
  | .clock _ offset => Node.offsetEffects offset
  | .barIndex => []
  | .unary _ operand => operand.effects
  | .binary _ left right => left.effects ++ right.effects
  | .ternary cond yes no => cond.effects ++ (yes.effects ++ no.effects)
  | .study ⟨study, args, handle⟩ => Bound.allEffects args ++ [.call ⟨study, args, handle⟩]
  | .math _ args => Node.allEffects args
  | .isNa operand => operand.effects
  | .nz operand replacement => operand.effects ++ replacement.effects

def Node.offsetEffects : Option Node → List Effect
  | none => []
  | some n => n.effects

/-- The effects of bringing a series up to date. -/
def Source.effects : Source → List Effect
  | .computed id value => value.effects ++ [.set .computed id]
  | .price _ => []
  | .slot _ _ => []

def Bound.allEffects : List Bound → List Effect
  | [] => []
  | b :: bs => b.effects ++ Bound.allEffects bs

def Bound.effects : Bound → List Effect
  | .series s => s.effects
  | .number n => n.effects
  | .absent => []

def Node.allEffects : List Node → List Effect
  | [] => []
  | n :: ns => n.effects ++ Node.allEffects ns

end

mutual

/-- An expression writes computed series only. -/
theorem Node.set_computed (n : Node) {bank : Bank} {id : Nat} (h : .set bank id ∈ n.effects) :
    bank = .computed := by
  cases n with
  | read source offset =>
    rw [Node.effects, List.mem_append] at h
    exact h.elim (Node.offset_set_computed offset) source.set_computed
  | clock c offset => exact Node.offset_set_computed offset (by simpa [Node.effects] using h)
  | unary op operand => exact operand.set_computed (by simpa [Node.effects] using h)
  | binary op left right =>
    rw [Node.effects, List.mem_append] at h
    exact h.elim left.set_computed right.set_computed
  | ternary cond yes no =>
    rw [Node.effects, List.mem_append, List.mem_append] at h
    exact h.elim cond.set_computed (Or.elim · yes.set_computed no.set_computed)
  | study c =>
    obtain ⟨study, args, handle⟩ := c
    exact Bound.all_set_computed args (by simpa [Node.effects] using h)
  | math f args => exact Node.all_set_computed args (by simpa [Node.effects] using h)
  | isNa operand => exact operand.set_computed (by simpa [Node.effects] using h)
  | nz operand replacement =>
    rw [Node.effects, List.mem_append] at h
    exact h.elim operand.set_computed replacement.set_computed
  | _ => simp [Node.effects] at h

theorem Node.offset_set_computed (o : Option Node) {bank : Bank} {id : Nat}
    (h : .set bank id ∈ Node.offsetEffects o) : bank = .computed := by
  cases o with
  | none => simp [Node.offsetEffects] at h
  | some n => exact n.set_computed h

theorem Source.set_computed (s : Source) {bank : Bank} {id : Nat} (h : .set bank id ∈ s.effects) :
    bank = .computed := by
  cases s with
  | computed i value =>
    rw [Source.effects, List.mem_append] at h
    refine h.elim value.set_computed fun h => ?_
    simp only [List.mem_singleton, Effect.set.injEq] at h
    exact h.1
  | _ => simp [Source.effects] at h

theorem Bound.all_set_computed (bs : List Bound) {bank : Bank} {id : Nat}
    (h : .set bank id ∈ Bound.allEffects bs) : bank = .computed := by
  cases bs with
  | nil => simp [Bound.allEffects] at h
  | cons b bs =>
    rw [Bound.allEffects, List.mem_append] at h
    exact h.elim b.set_computed (Bound.all_set_computed bs)

theorem Bound.set_computed (b : Bound) {bank : Bank} {id : Nat} (h : .set bank id ∈ b.effects) :
    bank = .computed := by
  cases b with
  | series s => exact s.set_computed (by simpa [Bound.effects] using h)
  | number n => exact n.set_computed (by simpa [Bound.effects] using h)
  | absent => simp [Bound.effects] at h

theorem Node.all_set_computed (ns : List Node) {bank : Bank} {id : Nat}
    (h : .set bank id ∈ Node.allEffects ns) : bank = .computed := by
  cases ns with
  | nil => simp [Node.allEffects] at h
  | cons n ns =>
    rw [Node.allEffects, List.mem_append] at h
    exact h.elim n.set_computed (Node.all_set_computed ns)

end

/-- The effects of a call: those of its arguments, then the call itself. -/
def StudyCallOf.effects (c : StudyCall) : List Effect := Bound.allEffects c.args ++ [.call c]

def OptionNode.effects : OptionNode → List Effect
  | text _ => []
  | flag _ => []
  | number n => n.effects
  | rgb channels => Node.allEffects channels
  | newColor base alpha => base.effects ++ Node.offsetEffects alpha

def optionEffects (options : OptionNodes) : List Effect := options.flatMap (·.2.effects)

def Drawing.effects : Drawing → List Effect
  | plot value _ options _ => value.effects ++ optionEffects options
  | candle opening high low close _ options _ =>
    opening.effects ++ (high.effects ++ (low.effects ++ (close.effects ++ optionEffects options)))
  | fill _ _ options => optionEffects options
  | hline price _ options => price.effects ++ optionEffects options
  | indicator _ _ _ => []

def Op.effects : Op → List Effect
  | set bank id value => value.effects ++ [.set bank id]
  | init bank id value => value.effects ++ [.set bank id]
  | unpack call targets => call.effects ++ targets.map (.set .bindings ·)
  | eval n => n.effects
  | draw d => d.effects

def Result.effects : Result → List Effect
  | single n => n.effects
  | named fields => fields.flatMap (·.2.effects)

/-- The effects of a step: those of the instructions in their order, then those of the result. -/
def Program.effects (p : Program) : List Effect :=
  p.ops.flatMap Op.effects ++ p.result.elim [] Result.effects

/-! ## What the cache sees of them -/

/-- The slot that a series is kept in. -/
def Source.slot? : Source → Option (Bank × Nat)
  | .price _ => none
  | .slot bank id => some (bank, id)
  | .computed id _ => some (.computed, id)

/-- The indicators that go through the cache with a source of their own; the average true range
goes through it with the market. -/
def Study.fed : Study → Bool
  | .sma | .ema | .rma | .rsi => true
  | _ => false

/-- The slot of the series that a cached call consumes. -/
def StudyCallOf.feed? (c : StudyCall) : Option (Bank × Nat) :=
  let first : Option Bound := c.args[0]?
  match c.study.fed, first with
  | true, some (.series s) => s.slot?
  | _, _ => none

namespace Effect

/-- The cache handle that an effect uses. -/
def handle? : Effect → Option Nat
  | set _ _ => none
  | call c => c.handle

/-- The computed series that an effect writes. -/
def computed? : Effect → Option Nat
  | set .computed id => some id
  | _ => none

/-- A write to the slot that a cached call consumes. -/
def Feeds : Effect → Effect → Prop
  | set bank id, call c => c.feed? = some (bank, id)
  | _, _ => False

end Effect

/-- Two calls with one handle are the same. -/
theorem eq_of_handle {es : List Effect} (hdistinct : (es.filterMap Effect.handle?).Nodup)
    {k k' : StudyCall} {h : Nat} (hk : .call k ∈ es) (hk' : .call k' ∈ es)
    (hh : k.handle = some h) (hh' : k'.handle = some h) : k' = k := by
  by_contra hne
  have hpair := List.pairwise_filterMap.1 hdistinct
  have hsymm : Std.Symm fun a a' : Effect =>
      ∀ b, a.handle? = some b → ∀ b', a'.handle? = some b' → b ≠ b' :=
    ⟨fun a a' h b hb b' hb' => (h b' hb' b hb).symm⟩
  exact hpair.forall hk hk' (fun h => hne (Effect.call.inj h).symm) h hh h hh' rfl

/-- A call with a handle is made once. -/
theorem not_mem_of_handle {es es' : List Effect} {k : StudyCall} {h : Nat}
    (hdistinct : ((es ++ .call k :: es').filterMap Effect.handle?).Nodup)
    (hh : k.handle = some h) : .call k ∉ es' := by
  intro hk
  have hpair := (List.pairwise_append.1 (List.pairwise_filterMap.1 hdistinct)).2.1
  exact (List.pairwise_cons.1 hpair).1 _ hk h hh h hh rfl

theorem Effect.Feeds.cases {e e' : Effect} (h : e.Feeds e') :
    ∃ c bank id, e' = .call c ∧ e = .set bank id ∧ c.feed? = some (bank, id) := by
  cases e with
  | call _ => exact h.elim
  | set bank id =>
    cases e' with
    | set _ _ => exact h.elim
    | call c => exact ⟨c, bank, id, rfl, rfl, h⟩

/-- No write comes after a cached call that it feeds. -/
def FedFirst (es : List Effect) : Prop := es.Pairwise fun e e' => ¬e'.Feeds e

/-! ## Assignments to what a cached call consumes -/

/-- The variable that is the source of a cached call. -/
def Effect.bareSource? : Effect → Option (Bank × Nat)
  | set _ _ => none
  | call c =>
    let first : Option Bound := c.args[0]?
    match c.study.fed, first with
    | true, some (.series (.slot bank id)) => some (bank, id)
    | _, _ => none

theorem Effect.bareSource?_of_feeds {bank : Bank} {id : Nat} {e : Effect}
    (h : (Effect.set bank id).Feeds e) (hbank : bank ≠ .computed) :
    e.bareSource? = some (bank, id) := by
  cases e with
  | set _ _ => exact h.elim
  | call c =>
    simp only [Feeds, StudyCallOf.feed?] at h
    simp only [bareSource?]
    split at h
    · rename_i src hcached hfirst
      cases src with
      | price p => cases h
      | slot b i =>
        rw [hcached, hfirst]
        exact h
      | computed i n =>
        cases h
        exact absurd rfl hbank
    · cases h

/-- The variable that an instruction assigns to. -/
def Op.assigned? : Op → Option (Bank × Nat)
  | set bank id _ => some (bank, id)
  | _ => none

/-- No variable that is the source of a cached call is assigned to by the instruction that makes the
call, or by a later one. -/
def Settled : List Op → Prop
  | [] => True
  | o :: os =>
    (∀ e ∈ o.effects, e.bareSource?.isSome → ∀ o' ∈ o :: os, o'.assigned? ≠ e.bareSource?) ∧
      Settled os

instance decidableSettled : (os : List Op) → Decidable (Settled os)
  | [] => instDecidableTrue
  | _ :: os => @instDecidableAnd _ _ inferInstance (decidableSettled os)

theorem Node.allEffects_eq (ns : List Node) : Node.allEffects ns = ns.flatMap Node.effects := by
  induction ns with
  | nil => rfl
  | cons n ns ih => simp [Node.allEffects, ih]

theorem Bound.allEffects_eq (bs : List Bound) : Bound.allEffects bs = bs.flatMap Bound.effects := by
  induction bs with
  | nil => rfl
  | cons b bs ih => simp [Bound.allEffects, ih]

end BarScript
