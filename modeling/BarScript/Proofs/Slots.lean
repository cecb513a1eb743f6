import Mathlib
import BarScript.Proofs.Growth

/-!
# Slots are not shared

The slots of variables that a program reads are the ones that its scope knows (`reads_expr` and the
lemmas after it), and the scope knows the slots that the statements before have declared
(`yields_slots`). So every variable of a compiled program has a slot of its own, which one
instruction declares, and what reads it or assigns to it comes later (`compile_unshared`).
-/

namespace BarScript

mutual

/-- The slots of variables that an expression reads. -/
def Node.reads : Node → List (Bank × Nat)
  | .number _ => []
  | .flag _ => []
  | .na => []
  | .read source offset => Node.offsetReads offset ++ source.reads
  | .clock _ offset => Node.offsetReads offset
  | .barIndex => []
  | .unary _ operand => operand.reads
  | .binary _ left right => left.reads ++ right.reads
  | .ternary cond yes no => cond.reads ++ (yes.reads ++ no.reads)
  | .study ⟨_, args, _⟩ => Bound.allReads args
  | .math _ args => Node.allReads args
  | .isNa operand => operand.reads
  | .nz operand replacement => operand.reads ++ replacement.reads

def Node.offsetReads : Option Node → List (Bank × Nat)
  | none => []
  | some n => n.reads

def Source.reads : Source → List (Bank × Nat)
  | .price _ => []
  | .slot bank id => [(bank, id)]
  | .computed _ value => value.reads

def Bound.allReads : List Bound → List (Bank × Nat)
  | [] => []
  | b :: bs => b.reads ++ Bound.allReads bs

def Bound.reads : Bound → List (Bank × Nat)
  | .series s => s.reads
  | .number n => n.reads
  | .absent => []

def Node.allReads : List Node → List (Bank × Nat)
  | [] => []
  | n :: ns => n.reads ++ Node.allReads ns

end

theorem Node.allReads_eq (ns : List Node) : Node.allReads ns = ns.flatMap Node.reads := by
  induction ns with
  | nil => rfl
  | cons n ns ih => simp [Node.allReads, ih]

theorem Bound.allReads_eq (bs : List Bound) : Bound.allReads bs = bs.flatMap Bound.reads := by
  induction bs with
  | nil => rfl
  | cons b bs ih => simp [Bound.allReads, ih]

def OptionNode.reads : OptionNode → List (Bank × Nat)
  | text _ => []
  | flag _ => []
  | number n => n.reads
  | rgb channels => Node.allReads channels
  | newColor base alpha => base.reads ++ Node.offsetReads alpha

def optionReads (options : OptionNodes) : List (Bank × Nat) := options.flatMap (·.2.reads)

def Drawing.reads : Drawing → List (Bank × Nat)
  | plot value _ options _ => value.reads ++ optionReads options
  | candle opening high low close _ options _ =>
    opening.reads ++ (high.reads ++ (low.reads ++ (close.reads ++ optionReads options)))
  | fill _ _ options => optionReads options
  | hline price _ options => price.reads ++ optionReads options
  | indicator _ _ _ => []

/-- The slots of variables that an instruction reads. -/
def Op.reads : Op → List (Bank × Nat)
  | set _ _ value => value.reads
  | init _ _ value => value.reads
  | unpack call _ => Bound.allReads call.args
  | eval n => n.reads
  | draw d => d.reads

def Result.reads : Result → List (Bank × Nat)
  | single n => n.reads
  | named fields => fields.flatMap (·.2.reads)

/-- The slots that an instruction sets, beside those of computed series. -/
def Op.targets : Op → List (Bank × Nat)
  | set bank id _ => [(bank, id)]
  | init bank id _ => [(bank, id)]
  | unpack _ targets => targets.map (.bindings, ·)
  | eval _ => []
  | draw _ => []

/-- The slots that a statement declares by becoming an instruction. -/
def Statement.declared (st : Statement) (o : Op) : List (Bank × Nat) :=
  match st with
  | declare _ _ _ _ => o.targets
  | unpack _ _ _ => o.targets
  | _ => []

namespace Scope

/-- The slots that have a name, in the order of their declarations. -/
def slots (s : Scope) : List (Bank × Nat) :=
  s.names.filterMap fun n =>
    match n.2 with
    | .series bank id => some (bank, id)
    | .plot _ => none

theorem mem_slots {s : Scope} {name : String} {bank : Bank} {id : Nat}
    (h : s.find? name = some (.series bank id)) : (bank, id) ∈ s.slots :=
  List.mem_filterMap.2 ⟨_, mem_of_find? h, rfl⟩

theorem Grew.slots {s s' : Scope} (h : s.Grew s') : s'.slots = s.slots := by
  rw [Scope.slots, h.names]
  rfl

end Scope

namespace Resolve

variable {β γ : Type}

/-- In a scope that knows slots in `K` only, what the results read is in `K`. -/
def Reads (K : Bank × Nat → Prop) (reads : β → List (Bank × Nat)) (m : ResolveM β) : Prop :=
  ∀ s : Scope, (∀ a ∈ s.slots, K a) → Yields m s fun x _ => ∀ a ∈ reads x, K a

namespace Reads

variable {K : Bank × Nat → Prop} {r : β → List (Bank × Nat)} {q : γ → List (Bank × Nat)}
variable {m : ResolveM β} {f : β → ResolveM γ}

theorem pure {x : β} (h : ∀ a ∈ r x, K a) : Reads K r (pure x) := fun _ _ => .pure h

theorem fail (position : Nat) (fault : ResolveFault) : Reads K r (fail position fault) :=
  fun _ _ => yields_fail

theorem bind [hkeeps : Keeps m] (hm : Reads K r m)
    (hf : ∀ x, (∀ a ∈ r x, K a) → Reads K q (f x)) : Reads K q (m >>= f) := by
  intro s hs
  refine .bind fun x s₁ hx => hf x (hm s hs x s₁ hx) s₁ ?_
  rw [(hkeeps.grew s x s₁ hx).slots]
  exact hs

/-- What comes first has no reads. -/
theorem after [hkeeps : Keeps m] (hf : ∀ x, Reads K q (f x)) : Reads K q (m >>= f) :=
  bind (r := fun _ => []) (fun _ _ _ _ _ => nofun) fun x _ => hf x

theorem map [Keeps m] (hm : Reads K r m) {g : β → γ} (hg : ∀ x a, a ∈ q (g x) → a ∈ r x) :
    Reads K q (do let x ← m; Pure.pure (g x)) :=
  hm.bind fun x hx => pure fun a ha => hx a (hg x a ha)

theorem each {f : β → ResolveM γ} [∀ x, Keeps (f x)] (hf : ∀ x, Reads K q (f x)) (xs : List β) :
    Reads K (fun ys => ys.flatMap q) (each f xs) := by
  induction xs with
  | nil => exact pure (by simp)
  | cons x xs ih =>
    refine (hf x).bind fun y hy => ih.bind fun ys hys => pure ?_
    simp only [List.flatMap_cons, List.mem_append]
    rintro a (ha | ha)
    · exact hy a ha
    · exact hys a ha

end Reads

variable {K : Bank × Nat → Prop}

theorem reads_computed {n : Node} (h : ∀ a ∈ n.reads, K a) : Reads K Source.reads (computed n) :=
  .after fun _ => .pure h

/-- A value that is no series, read at an offset. -/
theorem reads_offset {m : ResolveM Node} [Keeps m] {offset : Option Node}
    (ho : ∀ a ∈ Node.offsetReads offset, K a) (hm : Reads K Node.reads m) : Reads K Node.reads (do
      let value ← m
      match offset with
      | none => return value
      | some offset => return .read (← computed value) (some offset)) := by
  refine hm.bind fun n hn => ?_
  cases offset with
  | none => exact .pure hn
  | some o =>
    refine (reads_computed hn).bind fun src hsrc => .pure fun a ha => ?_
    exact (List.mem_append.1 ha).elim (ho a) (hsrc a)

theorem reads_name (nm : String) (position : Nat) {offset : Option Node}
    (ho : ∀ a ∈ Node.offsetReads offset, K a) : Reads K Node.reads (name nm position offset) := by
  intro s hs
  refine .bind (yields_get ?_)
  split
  · rename_i bank id hfind
    refine .pure fun a ha => (List.mem_append.1 ha).elim (ho a) fun ha => hs a ?_
    obtain rfl := List.mem_singleton.1 ha
    exact Scope.mem_slots hfind
  · exact yields_fail
  split
  · exact .pure fun a ha => (List.mem_append.1 ha).elim (ho a) (absurd · List.not_mem_nil)
  split
  · exact .pure ho
  dsimp only
  split
  · exact reads_offset ho (.pure (by simp [Node.reads])) s hs
  split
  · exact reads_offset ho (.pure (by simp [Node.reads, Bound.allReads, Bound.reads])) s hs
  split <;> exact .bind yields_fail

mutual

theorem reads_expr (e : Expr) : Reads K Node.reads (expr e) := by
  cases e with
  | number l => rw [expr]; exact .pure nofun
  | flag b => rw [expr]; exact .pure nofun
  | na => rw [expr]; exact .pure nofun
  | text t => rw [expr]; exact .fail _ _
  | name nm position => rw [expr]; exact reads_name nm position nofun
  | history target offset position =>
    rw [expr]
    refine (reads_expr offset).bind fun o ho => ?_
    split
    · exact reads_name _ _ ho
    · refine (reads_expr target).bind fun n hn => (reads_computed hn).bind fun src hsrc => ?_
      exact .pure fun a ha => (List.mem_append.1 ha).elim (ho a) (hsrc a)
  | unary op operand =>
    rw [expr]
    exact (reads_expr operand).map fun _ _ ha => ha
  | binary op left right =>
    rw [expr]
    refine (reads_expr left).bind fun l hl => (reads_expr right).bind fun r hr => .pure ?_
    exact fun a ha => (List.mem_append.1 ha).elim (hl a) (hr a)
  | ternary cond yes no =>
    rw [expr]
    refine (reads_expr cond).bind fun c hc => (reads_expr yes).bind fun y hy => ?_
    refine (reads_expr no).bind fun n hn => .pure fun a ha => ?_
    exact (List.mem_append.1 ha).elim (hc a) fun ha => (List.mem_append.1 ha).elim (hy a) (hn a)
  | call c => rw [expr]; exact reads_call c
termination_by 4 * sizeOf e

theorem reads_source (e : Expr) : Reads K Source.reads (source e) := by
  rw [source]
  intro s hs
  refine .bind (yields_get ?_)
  split
  · rename_i src hsrc
    refine .pure fun a ha => hs a ?_
    unfold namedSource? at hsrc
    split at hsrc
    · split at hsrc
      · rename_i hfind
        cases hsrc
        obtain rfl := List.mem_singleton.1 ha
        exact Scope.mem_slots hfind
      · cases hsrc
      · obtain ⟨p, -, rfl⟩ := Option.map_eq_some_iff.1 hsrc
        nomatch ha
    · cases hsrc
  · exact ((reads_expr e).bind fun n hn => reads_computed hn) s hs
termination_by 4 * sizeOf e + 1

theorem reads_argument (c : Call) (p : Param)
    (arg : Option { e : Expr // ∃ a ∈ c.args, a.value = e }) :
    Reads K Bound.reads (argument c p arg) := by
  have series : ∀ e : { e : Expr // ∃ a ∈ c.args, a.value = e },
      Reads K Bound.reads (do return .series (← source e.1)) := fun e =>
    have := sizeOf_arg_lt e.2
    (reads_source e.1).map fun _ _ ha => ha
  have number : ∀ e : { e : Expr // ∃ a ∈ c.args, a.value = e },
      Reads K Bound.reads (do return .number (← expr e.1)) := fun e =>
    have := sizeOf_arg_lt e.2
    (reads_expr e.1).map fun _ _ ha => ha
  rw [argument.eq_def]
  split
  · exact series _
  · exact series _
  · exact number _
  · exact number _
  · exact number _
  · exact .pure nofun
  · exact .pure nofun
  · exact .pure nofun
  · exact .fail _ _
  · exact .fail _ _
termination_by 4 * sizeOf c

theorem reads_study (c : Call) : Reads K (fun k => Bound.allReads k.args) (study c) := by
  rw [study]
  split
  · exact .fail _ _
  · refine .after fun bound => (Reads.each (fun pa : Param × _ =>
      reads_argument c pa.1 pa.2) _).bind fun args hargs => ?_
    simp only [← Bound.allReads_eq] at hargs
    split
    · exact .after fun _ => .pure hargs
    · exact .pure hargs
termination_by 4 * sizeOf c + 1

theorem reads_call (c : Call) : Reads K Node.reads (call c) := by
  have positional : Reads K Node.allReads
      (each (fun (a : Arg { e : Expr // ∃ a ∈ c.args, a.value = e }) => expr a.value.1)
        c.attach.args) := by
    have h := Reads.each (K := K) (q := Node.reads)
      (f := fun (a : Arg { e : Expr // ∃ a ∈ c.args, a.value = e }) => expr a.value.1) (fun a =>
        have := sizeOf_arg_lt a.value.2
        reads_expr a.value.1) c.attach.args
    simpa only [← Node.allReads_eq] using h
  rw [call]
  split
  · refine (reads_study c).bind fun k hk => ?_
    dsimp only
    split
    · exact .after fun _ => .pure hk
    · exact .pure hk
  dsimp only
  split
  · exact .after fun _ => positional.map fun _ _ ha => ha
  split
  · refine .after fun _ => positional.map fun ns a ha => ?_
    cases ns with
    | nil => nomatch ha
    | cons n ns => exact List.mem_append_left _ ha
  split
  · refine .after fun _ => positional.map fun ns a ha => ?_
    match ns, ha with
    | [], ha => nomatch ha
    | [n], ha => exact ha
    | n :: r :: ns, ha =>
      simp only [Node.reads, List.headD_cons, List.getD_cons_succ, List.getD_cons_zero,
        List.mem_append, Node.allReads] at ha ⊢
      exact ha.imp_right .inl
  · exact .after fun _ => .pure nofun
termination_by 4 * sizeOf c + 2

end

/-! ## Drawings -/

theorem reads_positional (c : Call) (count : ArgCount) :
    Reads K Node.allReads (positional c count) := by
  refine .after fun _ => ?_
  have h : Reads K (fun ns => ns.flatMap Node.reads) (each (fun a => expr a.value) c.args) :=
    .each (fun a => reads_expr a.value) c.args
  simpa only [← Node.allReads_eq] using h

theorem reads_option (e : Expr) : Reads K OptionNode.reads (option e) := by
  have number : Reads K OptionNode.reads (do return .number (← expr e)) :=
    (reads_expr e).map fun _ _ ha => ha
  rw [option.eq_def]
  cases e with
  | text t => exact .pure (x := OptionNode.text t) (List.forall_mem_nil K)
  | flag f => exact .pure (x := OptionNode.flag f) (List.forall_mem_nil K)
  | name nm position =>
    dsimp only
    split
    · split
      · exact .pure (List.forall_mem_nil K)
      · exact .fail _ _
    · exact number
  | call c =>
    dsimp only
    split
    · exact (reads_positional c _).map fun _ _ ha => ha
    split
    · refine .after fun bound => ?_
      split
      · exact .fail _ _
      · rename_i base _
        have := sizeOf_arg_lt base.2
        refine (reads_option base.1).bind fun b hb => ?_
        split
        · exact (reads_expr _).bind fun n hn => .pure fun a ha =>
            (List.mem_append.1 ha).elim (hb a) (hn a)
        · exact .pure fun a ha => (List.mem_append.1 ha).elim (hb a) (absurd · List.not_mem_nil)
    · exact number
  | _ => exact number
termination_by sizeOf e

theorem reads_options (xs : List (String × Expr)) : Reads K optionReads (options xs) :=
  .each (q := fun o : String × OptionNode => o.2.reads)
    (fun x => (reads_option x.2).map fun _ _ ha => ha) xs

theorem reads_requiredValue (c : Call) (params : List String) (b : BoundArgs Expr) (i : Nat) :
    Reads K Node.reads (requiredValue c params b i) :=
  .after fun e => reads_expr e

theorem reads_plot (c : Call) (char : Bool) : Reads K (fun d => d.1.reads) (plot c char) := by
  refine .after fun b => (reads_requiredValue c _ b 0).bind fun v hv => .after fun t => ?_
  exact (reads_options _).bind fun os hos => .pure fun a ha =>
    (List.mem_append.1 ha).elim (hv a) (hos a)

theorem reads_candle (c : Call) (bar : Bool) : Reads K Drawing.reads (candle c bar) := by
  refine .after fun b => (reads_requiredValue c _ b 0).bind fun o ho => ?_
  refine (reads_requiredValue c _ b 1).bind fun h hh => ?_
  refine (reads_requiredValue c _ b 2).bind fun l hl => ?_
  refine (reads_requiredValue c _ b 3).bind fun cl hcl => .after fun t => ?_
  refine (reads_options _).bind fun os hos => .pure fun a ha => ?_
  simp only [Drawing.reads, List.mem_append] at ha
  rcases ha with ha | ha | ha | ha | ha
  · exact ho a ha
  · exact hh a ha
  · exact hl a ha
  · exact hcl a ha
  · exact hos a ha

theorem reads_fill (c : Call) : Reads K Drawing.reads (fill c) :=
  .after fun _ => .after fun _ => .after fun _ => .after fun _ => .after fun _ =>
    (reads_options _).map fun _ _ ha => ha

theorem reads_hline (c : Call) : Reads K Drawing.reads (hline c) := by
  refine .after fun b => (reads_requiredValue c _ b 0).bind fun p hp => .after fun t => ?_
  exact (reads_options _).bind fun os hos => .pure fun a ha =>
    (List.mem_append.1 ha).elim (hp a) (hos a)

theorem reads_indicator (c : Call) : Reads K Drawing.reads (indicator c) :=
  .after fun _ => .after fun _ => .after fun _ => .after fun _ => .pure nofun

theorem reads_drawing {c : Call} {m : ResolveM Drawing} (h : drawing? c = some m) :
    Reads K Drawing.reads m := by
  unfold drawing? at h
  split at h <;> cases h
  · exact (reads_plot c false).map fun _ _ ha => ha
  · exact (reads_plot c true).map fun _ _ ha => ha
  · exact reads_candle c false
  · exact reads_candle c true
  · exact reads_fill c
  · exact reads_hline c
  · exact reads_indicator c

theorem reads_expression (e : Expr) : Reads K Op.reads (expression e) := by
  have plain : Reads K Op.reads (do return .eval (← expr e)) :=
    (reads_expr e).map fun _ _ ha => ha
  unfold expression
  dsimp only
  split
  · split
    · rename_i m hm
      have := keeps_drawing? _ m hm
      exact (reads_drawing hm).map fun _ _ ha => ha
    · exact plain
  · exact plain

theorem reads_fields (xs : List (String × Expr)) :
    Reads K (fun fs => fs.flatMap (·.2.reads)) (fields xs) :=
  .each (q := fun f : String × Node => f.2.reads)
    (fun x => (reads_expr x.2).map fun _ _ ha => ha) xs

/-! ## Statements -/

/-- What a statement does with the slots of variables by becoming an instruction. -/
structure Slotted (st : Statement) (o : Op) (s s' : Scope) : Prop where
  slots : s'.slots = s.slots ++ st.declared o
  bank_ne : ∀ a ∈ st.declared o, a.1 ≠ .computed
  numbered : ∀ bank, bank ≠ .computed → ((st.declared o).filter (·.1 == bank)).map (·.2) =
    List.range' (s.taken bank) (s'.taken bank - s.taken bank)
  reads : ∀ a ∈ o.reads, a ∈ s.slots
  targets : ∀ a ∈ o.targets, a ∈ st.declared o ∨ a.1 ≠ .constants ∧ a ∈ s.slots
  constant : ∀ id v, o ≠ .set .constants id v

/-- Nothing is declared. -/
theorem Slotted.plain {st : Statement} {o : Op} {s s' : Scope} (hgrew : s.Grew s')
    (hdeclared : st.declared o = []) (hreads : ∀ a ∈ o.reads, a ∈ s.slots)
    (htargets : ∀ a ∈ o.targets, a.1 ≠ .constants ∧ a ∈ s.slots) : Slotted st o s s' where
  slots := by rw [hgrew.slots, hdeclared, List.append_nil]
  bank_ne := by rw [hdeclared]; exact nofun
  numbered bank hbank := by rw [hdeclared, hgrew.others bank hbank, Nat.sub_self]; rfl
  reads := hreads
  targets a ha := .inr (htargets a ha)
  constant := by
    rintro id v rfl
    exact (htargets _ (.head _)).1 rfl

/-- What the scope knows, with a new name for a slot that is taken next. -/
theorem slots_declared {s s' : Scope} (hgrew : s.Grew s') {bank : Bank} (hbank : bank ≠ .computed)
    (name : String) {t : Scope} (ht : t = { s'.take bank with
      names := (s'.take bank).names ++ [(name, .series bank (s'.taken bank))] }) :
    t.slots = s.slots ++ [(bank, s.taken bank)] ∧ s'.taken bank = s.taken bank ∧
      ∀ b, b ≠ .computed → t.taken b = if b = bank then s.taken b + 1 else s.taken b := by
  subst ht
  refine ⟨?_, hgrew.others bank hbank, fun b hb => ?_⟩
  · rw [← hgrew.slots, ← hgrew.others bank hbank]
    simp [Scope.slots]
  · have htake := Scope.taken_take s' bank b
    rw [hgrew.others b hb, hgrew.others bank hbank] at htake
    refine Eq.trans ?_ (htake.trans (by split <;> simp_all))
    cases b <;> rfl

theorem slotted_declaration (kind : DeclKind) (nm : String) (value : Expr) (position : Nat)
    (s : Scope) : Yields (declaration kind nm value position) s fun o s' =>
      Slotted (.declare kind nm value position) o s s' := by
  have hreads {r : Node} {s₁ : Scope} (h : expr value s = .ok (r, s₁)) :
      ∀ a ∈ r.reads, a ∈ s.slots := reads_expr (K := (· ∈ s.slots)) value s (fun _ ha => ha) r s₁ h
  unfold declaration
  split
  · rename_i m hm
    have hkeeps := keeps_boundPlot? _ _ m hm
    obtain ⟨c, char, -, -, -, rfl⟩ := boundPlot?_eq_some hm
    refine .bind fun d s₁ hd => .bind (yields_declare fun _ => .pure ?_)
    have hgrew := hkeeps.grew s d s₁ hd
    have hread := reads_plot (K := (· ∈ s.slots)) c char s (fun _ ha => ha) d s₁ hd
    have hslots : ({ s₁ with names := s₁.names ++ [(nm, .plot d.2)] } : Scope).slots = s.slots := by
      rw [← hgrew.slots]
      simp [Scope.slots]
    refine ⟨hslots.trans (List.append_nil _).symm, List.forall_mem_nil _, fun bank hbank => ?_, hread,
      List.forall_mem_nil _, by rintro _ _ ⟨⟩⟩
    have htaken := hgrew.others bank hbank
    cases bank <;> simp_all [Scope.taken, Statement.declared, Op.targets]
  · refine .bind fun v s₁ hv => .bind (yields_slot (.bind (yields_declare fun _ => ?_)))
    have hgrew := (keeps_expr value).grew s v s₁ hv
    obtain ⟨hslots, htaken, hbanks⟩ := slots_declared hgrew kind.bank_ne nm rfl
    have h : ∀ o : Op, o.targets = [(kind.bank, s₁.taken kind.bank)] → o.reads = v.reads →
        (∀ id v, o ≠ .set .constants id v) →
        Slotted (.declare kind nm value position) o s { s₁.take kind.bank with
          names := (s₁.take kind.bank).names ++ [(nm, .series kind.bank (s₁.taken kind.bank))] } := by
      intro o ho hor hconstant
      have hdeclared : (Statement.declare kind nm value position).declared o =
          [(kind.bank, s.taken kind.bank)] := by rw [← htaken]; exact ho
      refine ⟨hslots.trans (by rw [hdeclared]), fun a ha => ?_, fun bank hbank => ?_,
        hor ▸ hreads hv, fun a ha => .inl ha, hconstant⟩
      · rw [hdeclared] at ha
        exact List.mem_singleton.1 ha ▸ kind.bank_ne
      rw [hdeclared, hbanks bank hbank]
      by_cases hb : bank = kind.bank
      · subst hb
        simp
      · simp [hb, Ne.symm hb]
    cases kind
    · exact .pure (h _ rfl rfl (by rintro _ _ ⟨⟩))
    · exact .pure (h _ rfl rfl (by rintro _ _ ⟨⟩))
    · exact .pure (h _ rfl rfl (by rintro _ _ ⟨⟩))

/-- New bindings are numbered in their order. -/
theorem slots_targets (position : Nat) (names : List String) (s : Scope) :
    Yields (targets position names) s fun ids s' =>
      s'.slots = s.slots ++ ids.map (.bindings, ·) ∧
        ids = List.range' (s.taken .bindings) (s'.taken .bindings - s.taken .bindings) ∧
        s.taken .bindings ≤ s'.taken .bindings ∧
        ∀ bank, bank ≠ .bindings → s'.taken bank = s.taken bank := by
  induction names generalizing s with
  | nil => exact .pure ⟨by simp, by simp, Nat.le_refl _, fun _ _ => rfl⟩
  | cons nm names ih =>
    refine .bind (yields_slot (.bind (yields_declare fun _ => ?_)))
    refine .bind ((ih _).mono fun ids s₁ h₁ => .pure ?_)
    obtain ⟨hslots, hids, hle, hother⟩ := h₁
    obtain ⟨hone, -, htaken⟩ := slots_declared (.refl s) (by decide : Bank.bindings ≠ .computed) nm rfl
    have hnext := htaken .bindings (by decide)
    rw [if_pos rfl] at hnext
    rw [hnext] at hids hle
    refine ⟨?_, ?_, Nat.le_of_succ_le hle, fun bank hbank => ?_⟩
    · rw [hslots, hone]
      simp
    · obtain ⟨n, hn⟩ := Nat.exists_eq_add_of_le hle
      rw [hids, hn, show s.taken .bindings + 1 + n - s.taken .bindings = n + 1 by omega,
        Nat.add_sub_cancel_left]
      rfl
    · rw [hother bank hbank]
      cases bank <;> first | rfl | exact absurd rfl hbank

/-- A reassignment goes to a known slot that is no constant. -/
theorem slots_reassigned (nm : String) (position : Nat) (s : Scope) :
    Yields (reassigned nm position) s fun a _ => a.1 ≠ .constants ∧ a ∈ s.slots := by
  refine .bind (yields_get ?_)
  split
  · exact yields_fail
  · rename_i hconstant hfind
    exact .pure ⟨hconstant, Scope.mem_slots hfind⟩
  · exact yields_fail
  · exact yields_fail

/-- An expression on its own declares nothing. -/
theorem targets_expression (e : Expr) (s : Scope) :
    Yields (expression e) s fun o _ => o.targets = [] := by
  unfold expression
  dsimp only
  split
  · split <;> exact .bind fun _ _ _ => .pure rfl
  · exact .bind fun _ _ _ => .pure rfl

/-- **A statement** declares new slots, numbered in their order, and what it becomes reads and assigns
to slots that were known before. -/
theorem slotted_statement (st : Statement) (s : Scope) :
    Yields (statement st) s fun c s' => ∀ o, c = .op o → Slotted st o s s' := by
  cases st with
  | declare kind nm value position =>
    refine .bind ((slotted_declaration kind nm value position s).mono fun o s₁ h₁ => .pure ?_)
    rintro _ ⟨⟩
    exact h₁
  | reassign nm value position =>
    refine .bind fun a s₁ ha => .bind fun v s₂ hv => .pure ?_
    rintro _ ⟨⟩
    have hgrew := (inferInstance : Keeps (reassigned nm position)).grew s a s₁ ha
    have hgrew' := hgrew.trans ((keeps_expr value).grew s₁ v s₂ hv)
    have hread := reads_expr (K := (· ∈ s.slots)) value s₁ (fun _ h => hgrew.slots ▸ h) v s₂ hv
    have hassigned := slots_reassigned nm position s a s₁ ha
    exact .plain hgrew' rfl hread fun b hb => List.mem_singleton.1 hb ▸ hassigned
  | unpack names call position =>
    refine .bind fun k s₁ hk => ?_
    dsimp only
    split
    · exact .bind yields_fail
    refine .bind ((slots_targets position names s₁).mono fun ids s₂ h₂ => .pure ?_)
    rintro _ ⟨⟩
    have hgrew := (keeps_study call).grew s k s₁ hk
    obtain ⟨hslots, hids, -, hother⟩ := h₂
    have hbindings := hgrew.others .bindings (by decide)
    refine ⟨by rw [hslots, hgrew.slots]; rfl, fun a ha => ?_, fun bank hbank => ?_,
      reads_study (K := (· ∈ s.slots)) call s (fun _ ha => ha) k s₁ hk, fun a ha => .inl ha,
      by rintro _ _ ⟨⟩⟩
    · obtain ⟨id, -, rfl⟩ := List.mem_map.1 ha
      exact (by decide : Bank.bindings ≠ .computed)
    show ((ids.map (Bank.bindings, ·)).filter _).map _ = _
    by_cases hb : bank = .bindings
    · subst hb
      rw [← hbindings, ← hids]
      simp [List.filter_map, Function.comp_def]
    · rw [hother bank hb, hgrew.others bank hbank, Nat.sub_self]
      simp [List.filter_map, Function.comp_def, Ne.symm hb]
  | expr e =>
    refine .bind fun o s₁ ho => .pure ?_
    rintro _ ⟨⟩
    have hgrew := (inferInstance : Keeps (expression e)).grew s o s₁ ho
    have htargets := targets_expression e s o s₁ ho
    have hread := reads_expression (K := (· ∈ s.slots)) e s (fun _ ha => ha) o s₁ ho
    exact .plain hgrew rfl hread (by simp [htargets])
  | result value position =>
    cases value with
    | single e => exact .bind fun _ _ _ => .pure (by rintro _ ⟨⟩)
    | named xs => exact .bind fun _ _ _ => .pure (by rintro _ ⟨⟩)

end Resolve

/-! ## Programs -/

/-- The slots that statements declare by becoming instructions, in their order. -/
def declarations (ss : List Statement) (os : List Op) : List (Bank × Nat) :=
  (ss.zip os).flatMap fun x => x.1.declared x.2

/-- One of the first `k` statements declares the slot. -/
def DeclaredBefore (ss : List Statement) (os : List Op) (k : Nat) (a : Bank × Nat) : Prop :=
  ∃ i < k, ∃ st o, ss[i]? = some st ∧ os[i]? = some o ∧ a ∈ st.declared o

theorem declaredBefore_of_mem {ss : List Statement} {os : List Op} {k : Nat} {a : Bank × Nat}
    (h : a ∈ declarations (ss.take k) (os.take k)) : DeclaredBefore ss os k a := by
  obtain ⟨x, hx, ha⟩ := List.mem_flatMap.1 h
  obtain ⟨i, hi⟩ := List.mem_iff_getElem?.1 hx
  obtain ⟨hst, ho⟩ := List.getElem?_zip_eq_some.1 hi
  have hlt : i < k := by
    by_contra hge
    rw [List.getElem?_take, if_neg hge] at hst
    cases hst
  rw [List.getElem?_take, if_pos hlt] at hst ho
  exact ⟨i, hlt, x.1, x.2, hst, ho, ha⟩

namespace Resolve

/-- A result takes no slots of variables, and reads slots that were known before. -/
theorem reads_result (st : Statement) (s : Scope) :
    Yields (statement st) s fun c s' => ∀ r, c = .result r →
      s.Grew s' ∧ ∀ a ∈ r.reads, a ∈ s.slots := by
  cases st with
  | result value position =>
    cases value with
    | single e =>
      refine .bind fun n s₁ hn => .pure ?_
      rintro _ ⟨⟩
      exact ⟨(keeps_expr e).grew s n s₁ hn, reads_expr e s (fun _ ha => ha) n s₁ hn⟩
    | named xs =>
      refine .bind fun fs s₁ hfs => .pure ?_
      rintro _ ⟨⟩
      exact ⟨(inferInstance : Keeps (fields xs)).grew s fs s₁ hfs,
        reads_fields xs s (fun _ ha => ha) fs s₁ hfs⟩
  | declare kind nm value position => exact .bind fun _ _ _ => .pure nofun
  | reassign nm value position => exact .bind fun _ _ _ => .bind fun _ _ _ => .pure nofun
  | unpack names call position =>
    refine .bind fun _ _ _ => ?_
    dsimp only
    split
    · exact .bind yields_fail
    · exact .bind fun _ _ _ => .pure nofun
  | expr e => exact .bind fun _ _ _ => .pure nofun

/-- The slots of a script are those that its statements have declared, numbered in their order. -/
theorem Resolved.slots {ss : List Statement} {s s' : Scope} {os : List Op} {r : Option Result}
    (h : Resolved s ss os r s') :
    s'.slots = s.slots ++ declarations ss os ∧ (∀ a ∈ declarations ss os, a.1 ≠ .computed) ∧
      ∀ bank, bank ≠ .computed → ((declarations ss os).filter (·.1 == bank)).map (·.2) =
        List.range' (s.taken bank) (s'.taken bank - s.taken bank) := by
  induction h with
  | @nil s => exact ⟨(List.append_nil _).symm, nofun, fun bank _ => by rw [Nat.sub_self]; rfl⟩
  | @op s s₁ s' st ss o os r ho hos ih =>
    have hone := slotted_statement st s _ _ ho o rfl
    obtain ⟨hslots, hbanks, hnumbered⟩ := ih
    have hsplit : declarations (st :: ss) (o :: os) = st.declared o ++ declarations ss os := by
      simp [declarations]
    refine ⟨?_, fun a ha => ?_, fun bank hbank => ?_⟩
    · rw [hslots, hone.slots, hsplit, List.append_assoc]
    · rw [hsplit] at ha
      exact (List.mem_append.1 ha).elim (hone.bank_ne a) (hbanks a)
    · rw [hsplit, List.filter_append, List.map_append, hone.numbered bank hbank,
        hnumbered bank hbank]
      exact Allocated.range'_append (((inferInstance : Grows (statement st)).le s _ _ ho).taken bank)
        ((le_resolved hos).taken bank)
  | @result s s' st r hr =>
    have hgrew := (reads_result st s _ _ hr r rfl).1
    have hnone : declarations [st] [] = [] := rfl
    refine ⟨by rw [hnone, List.append_nil, hgrew.slots], nofun, fun bank hbank => ?_⟩
    rw [hnone, hgrew.others bank hbank, Nat.sub_self]
    rfl

end Resolve

/-- Nothing that a program has numbered is shared: neither handles nor slots. -/
structure Program.Unshared (p : Program) (ss : List Statement) : Prop where
  /-- The handles of the calls are the numbers below their count, each once. -/
  handles : p.effects.filterMap Effect.handle? = List.range p.summary.cacheSites
  /-- So are the slots of the computed series. -/
  params : p.effects.filterMap Effect.computed? = List.range p.summary.params
  /-- In every bank the slots of variables are the numbers below their count, and each of them is
  declared once. -/
  declared : ∃ count : Bank → Nat,
    count .constants + count .states + count .bindings = p.summary.declared ∧
      (∀ a ∈ declarations ss p.ops, a.1 ≠ .computed) ∧
      ∀ bank, bank ≠ .computed →
        ((declarations ss p.ops).filter (·.1 == bank)).map (·.2) = List.range (count bank)
  reads : ∀ k o, p.ops[k]? = some o → ∀ a ∈ o.reads, DeclaredBefore ss p.ops k a
  result : ∀ r, p.result = some r → ∀ a ∈ r.reads, DeclaredBefore ss p.ops p.ops.length a
  /-- What an instruction sets is declared by it, or it is no constant and was declared before. -/
  targets : ∀ k st o, ss[k]? = some st → p.ops[k]? = some o → ∀ a ∈ o.targets,
    a ∈ st.declared o ∨ a.1 ≠ .constants ∧ DeclaredBefore ss p.ops k a
  constant : ∀ o ∈ p.ops, ∀ id v, o ≠ .set .constants id v

/-- **Slots and handles are not shared** by anything in a compiled program. -/
theorem compile_unshared {ss : List Statement} {p : Program} (h : compileStatements ss = .ok p) :
    p.Unshared ss := by
  obtain ⟨s', hresolved, hsummary⟩ := compileStatements_ok_iff.1 h
  -- the scope of an instruction knows what has been declared before
  have known {k : Nat} {s : Scope}
      (hbefore : Resolve.Resolved .empty (ss.take k) (p.ops.take k) none s) :
      ∀ a ∈ s.slots, DeclaredBefore ss p.ops k a := by
    intro a ha
    rw [hbefore.slots.1] at ha
    exact declaredBefore_of_mem ha
  have hslotted : ∀ k o, p.ops[k]? = some o → ∃ st s s₁, ss[k]? = some st ∧
      Resolve.Slotted st o s s₁ ∧ ∀ a ∈ s.slots, DeclaredBefore ss p.ops k a := by
    intro k o hk
    obtain ⟨st, s, s₁, hst, hbefore, hstatement⟩ := hresolved.op_at hk
    exact ⟨st, s, s₁, hst, Resolve.slotted_statement st s _ _ hstatement o rfl, known hbefore⟩
  refine ⟨compileStatements_handles h, compileStatements_computed h, ⟨s'.taken, ?_, ?_⟩, ?_, ?_, ?_,
    ?_⟩
  · rw [hsummary]
    rfl
  · obtain ⟨-, hbanks, hnumbered⟩ := hresolved.slots
    refine ⟨hbanks, fun bank hbank => ?_⟩
    rw [hnumbered bank hbank, List.range_eq_range']
    cases bank <;> rfl
  · intro k o hk a ha
    obtain ⟨st, s, s₁, -, hone, hknown⟩ := hslotted k o hk
    exact hknown a (hone.reads a ha)
  · intro r hr a ha
    rw [hr] at hresolved
    obtain ⟨before, st, s₀, hss, hbefore, hstatement⟩ := hresolved.result_at
    have hmem := (Resolve.reads_result st s₀ _ _ hstatement r rfl).2 a ha
    refine known (k := p.ops.length) ?_ a hmem
    rw [hss, List.take_left' hbefore.length_eq, List.take_length]
    exact hbefore
  · intro k st o hst hk a ha
    obtain ⟨st', s, s₁, hst', hone, hknown⟩ := hslotted k o hk
    cases hst.symm.trans hst'
    exact (hone.targets a ha).imp_right fun h => ⟨h.1, hknown a h.2⟩
  · intro o ho id v
    obtain ⟨k, hk⟩ := List.mem_iff_getElem?.1 ho
    obtain ⟨st, s, s₁, -, hone, -⟩ := hslotted k o hk
    exact hone.constant id v

/-- A constant, a state that begins with a mean of a computed series, and two bindings. -/
def trendStatements : List Statement :=
  [.declare .constant "k" (.number (.ofNat 2)) 0,
    .declare .persistent "v" (.call ⟨"ta.sma", [⟨none, .binary .mul (.name "close" 27) (.name "k" 35), 27⟩,
      ⟨none, .number (.ofNat 3), 38⟩], 20⟩) 12,
    .unpack ["line", "dir"] ⟨"ta.supertrend", [⟨none, .number (.ofNat 3), 69⟩,
      ⟨none, .number (.ofNat 10), 72⟩], 55⟩ 41,
    .reassign "v" (.binary .add (.name "v" 81) (.name "line" 85)) 76,
    .result (.single (.history (.binary .mul (.name "v" 98) (.name "dir" 102))
      (.number (.ofNat 1)) 106)) 90]

def trendProgram : Program :=
  let read (bank : Bank) (id : Nat) : Node := .read (.slot bank id) none
  ⟨[.init .constants 0 (.number (.ofNat 2)),
    .init .states 0 (.study ⟨.sma, [.series (.computed 0 (.binary .mul
      (.read (.price .close) none) (read .constants 0))), .number (.number (.ofNat 3))], some 0⟩),
    .unpack ⟨.supertrend, [.number (.number (.ofNat 3)), .number (.number (.ofNat 10))], none⟩ [0, 1],
    .set .states 0 (.binary .add (read .states 0) (read .bindings 0))],
    some (.single (.read (.computed 1 (.binary .mul (read .states 0) (read .bindings 1)))
      (some (.number (.ofNat 1))))), ⟨5, 4, 2, 1⟩⟩

theorem compile_unshared_trend :
    compileStatements trendStatements = .ok trendProgram ∧ trendProgram.Unshared trendStatements := by
  have hcompile : compileStatements trendStatements = .ok trendProgram := by
    with_unfolding_all rfl
  exact ⟨hcompile, compile_unshared hcompile⟩

end BarScript
