import BarScript.Proofs.Completion
import BarScript.Proofs.Growth
import BarScript.Proofs.Stopped
import BarScript.Proofs.Uncached
import BarScript.Proofs.Variable

/-!
# Whose initialiser sets a variable

Every script numbers the slots of its constants and of its states from zero, in the order of the
declarations (`compile_initialiser`), and a context keeps its stores from one script to the next. So
a variable is set from its own initialiser on the first bar of its script if no script that ran
before has declared as many variables of its kind (`initialised_once`), and otherwise goes on with
the value that it finds in its slot (`variable_inherited`).
-/

namespace BarScript

/-! ## The slots of declarations -/

/-- The kind of the declaration that a statement is. -/
def Statement.kind? : Statement → Option DeclKind
  | declare kind _ _ _ => some kind
  | _ => none

/-- How many declarations of a kind there are. -/
def declared (kind : DeclKind) (ss : List Statement) : Nat :=
  (ss.filterMap Statement.kind?).count kind

theorem declared_cons (kind : DeclKind) (st : Statement) (ss : List Statement) :
    declared kind (st :: ss) = declared kind [st] + declared kind ss := by
  rw [declared, declared, declared, ← List.count_append, ← List.filterMap_append]
  rfl

/-- Every number below the count is that of a declaration. -/
theorem exists_declaration {kind : DeclKind} {ss : List Statement} {k : Nat}
    (hk : k < declared kind ss) : ∃ i name value position,
      ss[i]? = some (.declare kind name value position) ∧ declared kind (ss.take i) = k := by
  induction ss generalizing k with
  | nil => exact absurd hk (Nat.not_lt_zero k)
  | cons st rest ih =>
    rw [declared_cons] at hk
    by_cases hfirst : declared kind [st] ≤ k
    · obtain ⟨i, name, value, position, hst, hcount⟩ := ih (k := k - declared kind [st]) (by omega)
      refine ⟨i + 1, name, value, position, hst, ?_⟩
      rw [List.take_succ_cons, declared_cons]
      omega
    · have hkind : st.kind? = some kind := by
        by_contra hne
        refine hfirst ?_
        have hzero : declared kind [st] = 0 := by
          rw [declared, List.count_eq_zero]
          simpa using hne
        omega
      cases st with
      | declare kind' name value position =>
        cases hkind
        have hone : declared kind [.declare kind name value position] = 1 := by
          simp [declared, Statement.kind?]
        exact ⟨0, name, value, position, rfl, by rw [List.take_zero]; show 0 = k; omega⟩
      | _ => cases hkind

namespace Resolve

variable {kind : DeclKind}

theorem yields_targets_taken (position : Nat) (names : List String) {bank : Bank}
    (hbank : bank ≠ .bindings) (s : Scope) :
    Yields (targets position names) s fun _ s' => s'.taken bank = s.taken bank := by
  induction names generalizing s with
  | nil => exact .pure rfl
  | cons name names ih =>
    refine .bind (yields_slot (.bind (yields_declare fun _ => ?_)))
    refine .bind ((ih _).mono fun ids s₁ h₁ => .pure (h₁.trans ?_))
    show (s.take .bindings).taken bank = s.taken bank
    rw [Scope.taken_take, if_neg hbank]

/-- A constant or a state takes a slot of its bank, and nothing else does. -/
theorem yields_statement_taken (st : Statement) (hkind : kind ≠ .binding) (s : Scope) :
    Yields (statement st) s fun _ s' =>
      s'.taken kind.bank = s.taken kind.bank + declared kind [st] := by
  have hcomputed : kind.bank ≠ .computed := DeclKind.bank_ne kind
  have hbindings : kind.bank ≠ .bindings := by
    cases kind
    · exact absurd rfl hkind
    all_goals nofun
  -- most statements take no such slot at all
  have same {m : ResolveM Compiled} (hm : Keeps m) (hnone : declared kind [st] = 0) :
      Yields m s fun _ s' => s'.taken kind.bank = s.taken kind.bank + declared kind [st] :=
    (hm.grew s).mono fun _ s' h => by rw [hnone, h.others _ hcomputed, Nat.add_zero]
  cases st with
  | declare kind' name value position =>
    show Yields (do return Compiled.op (← declaration kind' name value position)) s _
    unfold declaration
    split
    · rename_i m hm
      have hplot : kind' = .binding := by
        cases kind' with
        | binding => rfl
        | _ => cases hm
      have := keeps_boundPlot? _ _ m hm
      have hnone : declared kind [.declare kind' name value position] = 0 := by
        rw [hplot]
        simp [declared, Statement.kind?, Ne.symm hkind]
      refine .bind (.bind (((inferInstance : Keeps m).grew s).mono fun d s₁ h₁ => ?_))
      refine .bind (yields_declare fun _ => .pure (.pure ?_))
      rw [hnone]
      exact h₁.others _ hcomputed
    · refine .bind (.bind (((inferInstance : Keeps (expr value)).grew s).mono fun v s₁ h₁ => ?_))
      refine .bind (yields_slot (.bind (yields_declare fun _ => ?_)))
      have htaken : (s₁.take kind'.bank).taken kind.bank =
          s.taken kind.bank + declared kind [.declare kind' name value position] := by
        rw [Scope.taken_take, ← h₁.others _ hcomputed]
        cases kind <;> cases kind' <;> rfl
      split <;> exact .pure (.pure htaken)
  | reassign name value position =>
    exact same (by unfold statement; infer_instance) rfl
  | unpack names call position =>
    refine .bind (((inferInstance : Keeps (study call)).grew s).mono fun k s₁ h₁ => ?_)
    dsimp only
    split
    · exact .bind yields_fail
    · refine .bind ((yields_targets_taken position names hbindings s₁).mono fun ids s₂ h₂ =>
        .pure ?_)
      rw [h₂, h₁.others _ hcomputed]
      rfl
  | expr e => exact same (by unfold statement; infer_instance) rfl
  | result value position =>
    cases value with
    | single e => exact same (by unfold statement; infer_instance) rfl
    | named xs => exact same (by unfold statement; infer_instance) rfl

/-- Slots are numbered in the order of the declarations. -/
theorem Resolved.taken_eq {ss : List Statement} {s s' : Scope} {os : List Op} {r : Option Result}
    (h : Resolved s ss os r s') (hkind : kind ≠ .binding) :
    s'.taken kind.bank = s.taken kind.bank + declared kind ss := by
  induction h with
  | nil => rfl
  | op ho _ ih =>
    rw [ih, yields_statement_taken _ hkind _ _ _ ho, Nat.add_assoc, ← declared_cons]
  | result hr => exact yields_statement_taken _ hkind _ _ _ hr

theorem Resolved.taken_declared {ss : List Statement} {s' : Scope} {os : List Op}
    {r : Option Result} (h : Resolved .empty ss os r s') (hkind : kind ≠ .binding) :
    s'.taken kind.bank = declared kind ss := by
  have hstart : Scope.empty.taken kind.bank = 0 := by cases kind <;> rfl
  rw [h.taken_eq hkind, hstart, Nat.zero_add]

theorem yields_initialiser (hkind : kind ≠ .binding) (name : String) (value : Expr) (position : Nat)
    (s : Scope) : Yields (statement (.declare kind name value position)) s fun c _ =>
      ∃ node s₁, expr value s = .ok (node, s₁) ∧
        c = .op (.init kind.bank (s.taken kind.bank) node) := by
  show Yields (do return Compiled.op (← declaration kind name value position)) s _
  unfold declaration
  have hnone : boundPlot? kind value = none := by
    cases kind with
    | binding => exact absurd rfl hkind
    | _ => rfl
  rw [hnone]
  refine .bind (.bind fun node s₁ hnode => .bind (yields_slot (.bind (yields_declare fun _ => ?_))))
  have hsame : s₁.taken kind.bank = s.taken kind.bank :=
    ((inferInstance : Keeps (expr value)).grew s _ _ hnode).others _ (DeclKind.bank_ne kind)
  cases kind with
  | binding => exact absurd rfl hkind
  | _ => exact .pure (.pure ⟨node, s₁, hnode, by rw [← hsame]⟩)

end Resolve

/-- Statement `i` of a script declares a constant or a state in slot `k` of its bank, and sets it
from `node`, which is what its initialiser `value` has been resolved to. -/
structure Initialiser (ss : List Statement) (p : Program) (i : Nat) (bank : Bank) (k : Nat)
    (value : Expr) (node : Node) : Prop where
  resolved : ∃ os s s₁, Resolve.statements (ss.take i) .empty = .ok (os, s) ∧
    Resolve.expr value s = .ok (node, s₁)
  op : p.ops[i]? = some (.init bank k node)
  unwritten : .set bank k ∉ (p.ops.take i).flatMap Op.effects
  bank_ne : bank ≠ .computed

variable {ss : List Statement} {p : Program} {kind : DeclKind}

/-- **The initialiser of a declaration** is that of the slot with the number of the declaration
among those of its kind. -/
theorem compile_initialiser (h : compileStatements ss = .ok p) (hkind : kind ≠ .binding) {i : Nat}
    {name : String} {value : Expr} {position : Nat}
    (hst : ss[i]? = some (.declare kind name value position)) :
    ∃ node, Initialiser ss p i kind.bank (declared kind (ss.take i)) value node := by
  obtain ⟨s', hresolved, -⟩ := compileStatements_ok_iff.1 h
  obtain ⟨os₁, os₂, s₀, c, s₁, hbefore, hlength, hops, hstatement, hafter⟩ := hresolved.at hst
  obtain ⟨node, s₂, hnode, rfl⟩ :=
    Resolve.yields_initialiser hkind name value position s₀ _ _ hstatement
  obtain ⟨_, os₃, ⟨⟩, rfl, -⟩ | ⟨_, ⟨⟩, _⟩ := hafter
  rw [← hbefore.taken_declared hkind]
  refine ⟨node, ⟨⟨_, s₀, s₂, Resolve.statements_of_resolved hbefore, hnode⟩, ?_, ?_,
    DeclKind.bank_ne kind⟩⟩
  · rw [hops, ← hlength]
    simp
  · rw [hops, List.take_left' hlength]
    intro hw
    obtain ⟨s₃, hlaid, hnone⟩ := hbefore.laid Scope.sound_empty
    have hlt := hlaid.taken hw
    have hle := hnone.taken_le kind.bank
    omega

/-- Slots beyond the declarations of a kind are not written. -/
theorem compile_unwritten (h : compileStatements ss = .ok p) (hkind : kind ≠ .binding) {k : Nat}
    (hk : declared kind ss ≤ k) : .set kind.bank k ∉ p.effects := by
  obtain ⟨s', hresolved, -⟩ := compileStatements_ok_iff.1 h
  obtain ⟨s₁, hlaid, hresult⟩ := hresolved.laid Scope.sound_empty
  have htaken := hresolved.taken_declared hkind
  intro hw
  rcases List.mem_append.1 hw with hw | hw
  · have hlt := hlaid.taken hw
    have hle := hresult.taken_le kind.bank
    omega
  · have hlt := (hresult.fresh _ _ hw).2
    omega

/-! ## Slots in sessions -/

variable {α : Type} [Arith α] {P : Series α → Prop} {a : Bank × Nat}

/-- A context with a slot that is in `P`, beside itself. -/
theorem Simulation.ofSlot {all : List Effect}
    (hset : .set a.1 a.2 ∈ all → ∀ s x, P s → P (s.setCurrent x)) :
    Simulation fun es (c c' : Context α) => c' = c ∧ es ⊆ all ∧ P (c.stores.slot a) where
  bar h := by rw [h.1]
  clock h k := by rw [h.1]
  price h p := by rw [h.1]
  stores h := by rw [h.1]
  outputs h := by rw [h.1]
  results h := by rw [h.1]
  skip h := ⟨h.1, fun _ he => h.2.1 (.tail _ he), h.2.2⟩
  written {bank id es c c'} h x := by
    obtain ⟨rfl, hes, hP⟩ := h
    refine ⟨rfl, fun _ he => hes (.tail _ he), ?_⟩
    show P ((c'.stores.set bank id x).slot a)
    rw [Stores.slot_set]
    split
    · rename_i heq
      subst heq
      exact hset (hes (.head _)) _ x hP
    · exact hP
  called h nums := ⟨by rw [h.1], by rw [h.1], fun _ he => h.2.1 (.tail _ he), h.2.2⟩
  drawn h o := ⟨by rw [h.1], h.2.1, h.2.2⟩

namespace Runner

/-- However a run ends, a slot is in `P` if writes and the ends of bars keep it there. -/
theorem visits_slot (hset : .set a.1 a.2 ∈ p.effects → ∀ s x, P s → P (s.setCurrent x))
    (hshift : ∀ s, P s → P s.shift.1) (bars : List Nat) {ctx : Context α}
    (h : P (ctx.stores.slot a)) : P ((visits p bars ctx).2.stores.slot a) := by
  obtain ⟨-, hended⟩ := (Simulation.ofSlot hset).visits p bars
    (Q := fun c c' => c' = c ∧ P (c.stores.slot a))
    (fun _ _ _ _ hc => ⟨by rw [hc.1], List.Subset.refl _, hc.2⟩)
    (fun c _ results hc => ⟨by rw [hc.1], by
      show P (c.stores.shiftAll.slot a)
      rw [Stores.slot_shiftAll]
      exact hshift _ hc.2.2⟩) (c := ctx) ⟨rfl, h⟩
  rcases hended with ⟨-, hc⟩ | ⟨-, hc⟩
  · exact hc.2
  · exact hc.2.2

variable {Good : CompiledScript → Prop}

/-- **An action** keeps a slot in `P` if its script does. -/
theorem perform_slot
    (hset : ∀ s, Good s → .set a.1 a.2 ∈ s.program.effects → ∀ x v, P x → P (x.setCurrent v))
    (hshift : ∀ s, P s → P s.shift.1) {r : Runner α} {ctx : Context α}
    (hr : ∀ s, r.compiled = some s → Good s) {act : Action α} (hact : act.Runs Good)
    (h : P (ctx.stores.slot a)) : P ((r.perform ctx act).2.1.stores.slot a) ∧
      ∀ s, (r.perform ctx act).2.2.compiled = some s → Good s := by
  cases act with
  | run source? count =>
    have hsource : ∀ source p, source? = some source → BarScript.compile source = .ok p →
        Good ⟨source, p⟩ := by
      rintro source p rfl hcompile
      exact hact p hcompile
    rw [perform, runIn]
    cases hcompile : r.compile? source? with
    | error failure => exact ⟨h, hr⟩
    | ok r₁ =>
      obtain ⟨-, hgood⟩ := compile?_ok hcompile hr hsource
      dsimp only
      cases hscript : r₁.compiled with
      | none => exact ⟨h, hgood⟩
      | some script =>
        refine ⟨?_, hgood⟩
        dsimp only
        rw [runProgram_eq]
        exact visits_slot (hset script (hgood script hscript)) hshift _ h
  | append b =>
    rw [perform]
    cases hb : r.update b with
    | error failure => exact ⟨h, hr⟩
    | ok r₁ =>
      refine ⟨h, ?_⟩
      dsimp only
      rw [update_market hb]
      exact hr
  | caching on => exact ⟨h, hr⟩

/-- **A session** keeps a slot in `P` if its scripts do. -/
theorem session_slot
    (hset : ∀ s, Good s → .set a.1 a.2 ∈ s.program.effects → ∀ x v, P x → P (x.setCurrent v))
    (hshift : ∀ s, P s → P s.shift.1) {r : Runner α} {ctx : Context α}
    (hr : ∀ s, r.compiled = some s → Good s) {actions : List (Action α)}
    (hactions : ∀ act ∈ actions, act.Runs Good) (h : P (ctx.stores.slot a)) :
    P ((r.session ctx actions).2.1.stores.slot a) ∧
      ∀ s, (r.session ctx actions).2.2.compiled = some s → Good s := by
  induction actions generalizing r ctx with
  | nil => exact ⟨h, hr⟩
  | cons act rest ih =>
    obtain ⟨hslot, hgood⟩ := perform_slot hset hshift hr (hactions act (.head _)) h
    rw [session]
    revert hslot hgood
    generalize r.perform ctx act = ended
    obtain ⟨outcome, ctx₁, r₁⟩ := ended
    intro hslot hgood
    cases outcome with
    | error failure => exact ⟨hslot, hgood⟩
    | ok _ => exact ih hgood (fun act hact => hactions act (.tail _ hact)) hslot

/-- A run of a source on a runner that keeps what it has compiled. -/
theorem runIn_source {source : String} {r : Runner α}
    (hr : ∀ s, r.compiled = some s → BarScript.compile s.source = .ok s.program)
    (hcompile : BarScript.compile source = .ok p) (ctx : Context α) (count : Option Nat) :
    r.runIn ctx (some source) count = r.ran ⟨source, p⟩ ctx count := by
  cases hscript : r.compiled with
  | none => exact runIn_some hcompile (.inl hscript) ctx count
  | some script =>
    by_cases hsource : script.source = source
    · obtain ⟨source', p'⟩ := script
      obtain rfl : source' = source := hsource
      obtain rfl : p' = p := by
        cases (hr _ hscript).symm.trans hcompile
        rfl
      exact runIn_some hcompile (.inr hscript) ctx count
    · have hnew : r.compile source = .ok { r with compiled := some ⟨source, p⟩ } := by
        rw [compile, hscript, hcompile]
        simp [hsource]
      simp only [runIn, compile?, hnew, ran]

end Runner

/-! ## The first bar of a script -/

/-- A step that starts in `start` sets a slot from an initialiser: when instruction `i` is reached,
its `node` is evaluated, and then the slot holds this value alone. -/
def Program.Initialises (p : Program) (i : Nat) (a : Bank × Nat) (node : Node)
    (start : Context α) : Prop :=
  ∃ plotted c v c₁ plotted' c₂, Op.execAll (p.ops.take i) [] start = .ok plotted c ∧
    node.eval c = .ok v c₁ ∧ (Op.init a.1 a.2 node).exec plotted c = .ok plotted' c₂ ∧
    (c₂.stores.slot a).toList = [v]

/-- A step that starts in `start` goes on with the values of a slot: when instruction `i` is
reached, the slot holds what it has held at the start, and the instruction does nothing. -/
def Program.Inherits (p : Program) (i : Nat) (a : Bank × Nat) (node : Node)
    (start : Context α) : Prop :=
  ∃ plotted c, Op.execAll (p.ops.take i) [] start = .ok plotted c ∧
    (Op.init a.1 a.2 node).exec plotted c = .ok plotted c ∧
    c.stores.slot a = start.stores.slot a ∧ (start.stores.slot a).toList ≠ []

namespace Initialiser

variable {i k : Nat} {bank : Bank} {value : Expr} {node : Node} {start c' : Context α}
variable {out : StepOutput α}

/-- A step reaches the declaration before anything is written to its slot. -/
theorem reached (h : Initialiser ss p i bank k value node) (hstep : p.step start = .ok out c') :
    ∃ plotted c plotted' c₂, Op.execAll (p.ops.take i) [] start = .ok plotted c ∧
      (Op.init bank k node).exec plotted c = .ok plotted' c₂ ∧
      c.stores.slot (bank, k) = start.stores.slot (bank, k) ∧
      ∀ x ∈ given (bank, k) ((Op.init bank k node).trace c), x ∈ given (bank, k) (p.trace start) := by
  obtain ⟨plotted, c₁, hops, htrace⟩ := Program.step_ops hstep
  obtain ⟨before, c, after, c₂, htake, hexec, hall⟩ := Op.execAll_at h.op hops
  refine ⟨before, c, after, c₂, htake, hexec,
    (Op.execAll_touched htake).slot (bank, k) h.unwritten, fun x hx => ?_⟩
  rw [htrace, hall]
  simp [hx]

/-- A slot that has never been written is set from the initialiser. -/
theorem initialises (h : Initialiser ss p i bank k value node)
    (hempty : (start.stores.slot (bank, k)).toList = []) (hstep : p.step start = .ok out c') :
    p.Initialises i (bank, k) node start := by
  obtain ⟨plotted, c, plotted', c₂, htake, hexec, hslot, -⟩ := h.reached hstep
  have hinit := hexec
  rw [Op.exec_init, hslot, if_pos ((Series.isEmpty_iff_toList _).2 hempty)] at hinit
  obtain ⟨v, c₁, hv, hset⟩ := eval_bind_ok hinit
  refine ⟨plotted, c, v, c₁, plotted', c₂, htake, hv, hexec, ?_⟩
  cases hset
  have hsame : c₁.stores.slot (bank, k) = start.stores.slot (bank, k) :=
    ((node.evaluates.evaluated hv).assigned (bank, k) h.bank_ne).trans hslot
  show ((c₁.stores.set bank k v).slot (bank, k)).toList = [v]
  rw [Stores.slot_set, if_pos rfl, Series.toList_setCurrent, hsame, hempty]
  rfl

/-- A slot that has been written keeps its values. -/
theorem inherits (h : Initialiser ss p i bank k value node)
    (hsome : (start.stores.slot (bank, k)).toList ≠ []) (hstep : p.step start = .ok out c') :
    p.Inherits i (bank, k) node start := by
  obtain ⟨plotted, c, plotted', c₂, htake, hexec, hslot, -⟩ := h.reached hstep
  have hinit := hexec
  rw [Op.exec_init, hslot, if_neg fun hempty => hsome ((Series.isEmpty_iff_toList _).1 hempty)]
    at hinit
  cases hinit
  exact ⟨plotted, c, htake, hexec, hslot, hsome⟩

/-- After the bar there is a value. -/
theorem written (h : Initialiser ss p i bank k value node) (hstep : p.step start = .ok out c') :
    (c'.stores.slot (bank, k)).toList ≠ [] := by
  obtain ⟨plotted, c, plotted', c₂, -, hexec, hslot, hgiven⟩ := h.reached hstep
  have hinit := Op.given_init h.bank_ne hexec
  rw [p.trace_faithful.stores hstep, Stores.slot_after, Series.toList_foldl_setCurrent]
  cases hlast : (given (bank, k) (p.trace start)).getLast? with
  | some x => exact List.append_ne_nil_of_right_ne_nil _ (List.cons_ne_nil _ _)
  | none =>
    intro hempty
    rw [hslot, if_pos ((Series.isEmpty_iff_toList _).2 hempty)] at hinit
    obtain ⟨v, c₁, -, hv⟩ := hinit
    have hmem := hgiven v (hv ▸ .head _)
    rw [List.getLast?_eq_none_iff.1 hlast] at hmem
    cases hmem

end Initialiser

/-- **A variable is set from its own initialiser** on the first bar of its script, if no script that
has run on the context before declares as many variables of its kind as stand before it in its own
script. -/
theorem initialised_once {source : String} (hparse : parse source = .ok ss)
    (hcompile : compile source = .ok p) (hkind : kind ≠ .binding) {i : Nat} {name : String}
    {value : Expr} {position : Nat} (hst : ss[i]? = some (.declare kind name value position))
    {actions : List (Action α)}
    (hactions : ∀ source' count, .run (some source') count ∈ actions →
      ∀ ss', parse source' = .ok ss' → declared kind ss' ≤ declared kind (ss.take i))
    (bars : List (Bar α)) (useCache : Bool) (precision : Precision) (count : Option Nat) :
    let r := Runner.configured bars useCache precision
    let ended := r.session r.context actions
    let ctx := ended.2.1
    let r' := ended.2.2
    r'.runIn ctx (some source) count = r'.ran ⟨source, p⟩ ctx count ∧
      ∃ node, Initialiser ss p i kind.bank (declared kind (ss.take i)) value node ∧
        ∀ first rest, Runner.window r'.market count = first :: rest →
          let start := Engine.enter { ctx with market := r'.market } first
          ∀ out c', p.step start = .ok out c' →
            p.Initialises i (kind.bank, declared kind (ss.take i)) node start := by
  intro r ended ctx r'
  let k := declared kind (ss.take i)
  let Good (s : CompiledScript) : Prop :=
    compile s.source = .ok s.program ∧ .set kind.bank k ∉ s.program.effects
  have hgood : ∀ act ∈ actions, act.Runs Good := by
    intro act hact
    cases act with
    | run source? count' =>
      cases source? with
      | none => trivial
      | some source' =>
        intro p' hp'
        obtain ⟨ss', hparse', hstatements⟩ := compile_ok hp'
        exact ⟨hp', compile_unwritten hstatements hkind (hactions source' count' hact ss' hparse')⟩
    | append b => trivial
    | caching on => trivial
  have hfresh : (r.context.stores.slot (kind.bank, k)).toList = [] := by
    cases kind <;> rfl
  obtain ⟨hslot, hscript⟩ := Runner.session_slot (P := fun s => s.toList = [])
    (a := (kind.bank, k)) (fun s hs hw => absurd hw hs.2)
    (fun s hs => by rw [Series.toList_shift, hs]; rfl) (r := r) nofun hgood hfresh
  obtain ⟨node, hnode⟩ := compile_initialiser (compileStatements_of_compile hparse hcompile) hkind hst
  refine ⟨Runner.runIn_source (fun s hs => (hscript s hs).1) hcompile ctx count, node, hnode, ?_⟩
  intro first rest _ start out c' hstep
  exact hnode.initialises hslot hstep

/-- A script with one state. -/
def fiveSource : String := "var x = 5\nreturn x"

def fiveStatements : List Statement :=
  [.declare .persistent "x" (.number (.ofNat 5)) 0, .result (.single (.name "x" 17)) 10]

def fiveProgram : Program :=
  ⟨[.init .states 0 (.number (.ofNat 5))], some (.single (.read (.slot .states 0) none)),
    ⟨2, 1, 0, 0⟩⟩

theorem parse_fiveSource : parse fiveSource = .ok fiveStatements := by
  with_unfolding_all rfl

theorem compile_fiveSource : compile fiveSource = .ok fiveProgram := by
  rw [compile, parse_fiveSource]
  with_unfolding_all rfl

/-- The state of another script, behind one that it declares first. -/
def secondSource : String := "var a = 1\nvar y = 7\nreturn y"

def secondStatements : List Statement :=
  [.declare .persistent "a" (.number (.ofNat 1)) 0, .declare .persistent "y" (.number (.ofNat 7)) 10,
    .result (.single (.name "y" 27)) 20]

def secondProgram : Program :=
  ⟨[.init .states 0 (.number (.ofNat 1)), .init .states 1 (.number (.ofNat 7))],
    some (.single (.read (.slot .states 1) none)), ⟨3, 2, 0, 0⟩⟩

/-- The second state of a script that runs after one with a single state, and a new bar. -/
theorem initialised_once_second :
    let bars : List (Bar Float) := [⟨0, 1, 2, 2, 2, 2, 5⟩]
    let actions : List (Action Float) :=
      [.run (some fiveSource) none, .append ⟨1, 2, 4, 4, 4, 4, 5⟩]
    let r := Runner.configured bars true .standard
    let ended := r.session r.context actions
    let start := Engine.enter { ended.2.1 with market := ended.2.2.market } 1
    parse secondSource = .ok secondStatements ∧ compile secondSource = .ok secondProgram ∧
      DeclKind.persistent ≠ .binding ∧
      secondStatements[1]? = some (.declare .persistent "y" (.number (.ofNat 7)) 10) ∧
      (∀ source' count, .run (some source') count ∈ actions → ∀ ss', parse source' = .ok ss' →
        declared .persistent ss' ≤ declared .persistent (secondStatements.take 1)) ∧
      ended.1 = .ok () ∧ Runner.window ended.2.2.market (some 1) = [1] ∧
      ∃ out c', secondProgram.step start = .ok out c' ∧
        ∃ node, secondProgram.Initialises 1 (.states, 1) node start := by
  intro bars actions r ended start
  have hparse : parse secondSource = .ok secondStatements := by
    with_unfolding_all rfl
  have hcompile : compile secondSource = .ok secondProgram := by
    rw [compile, hparse]
    with_unfolding_all rfl
  have hactions : ∀ source' count, .run (some source') count ∈ actions → ∀ ss',
      parse source' = .ok ss' →
      declared .persistent ss' ≤ declared .persistent (secondStatements.take 1) := by
    intro source' count hmem ss' hss'
    obtain ⟨rfl, -⟩ : source' = fiveSource ∧ count = none := by simpa [actions] using hmem
    cases parse_fiveSource.symm.trans hss'
    decide
  have hmarket : Market.ofBars bars = ⟨bars.toArray⟩ := Market.ofBars_ascending (by decide)
  have hr : r = ⟨⟨bars.toArray⟩, none, true, .standard⟩ := by rw [← hmarket]; rfl
  have hfirst : r.perform r.context (.run (some fiveSource) none) =
      r.ran ⟨fiveSource, fiveProgram⟩ r.context none :=
    Runner.runIn_some compile_fiveSource (.inl rfl) _ _
  let next : Context Float := { ended.2.1 with market := ended.2.2.market }
  have hended : ended.1 = .ok () ∧ Runner.window ended.2.2.market (some 1) = [1] ∧
      (Runner.visits secondProgram [1] next).1 = .ok () := by
    simp only [next, ended, actions]
    rw [Runner.session, hfirst, hr]
    decide +kernel
  obtain ⟨hok, hwindow, hvisit⟩ := hended
  obtain ⟨out, c', -, hstep, -⟩ := Runner.visits_one (Prod.ext hvisit rfl)
  have hkind : DeclKind.persistent ≠ .binding := by decide
  obtain ⟨-, node, -, hinit⟩ :=
    initialised_once hparse hcompile hkind rfl hactions bars true .standard (some 1)
  exact ⟨hparse, hcompile, hkind, rfl, hactions, hok, hwindow, out, c', hstep, node,
    hinit 1 [] hwindow out c' hstep⟩

/-- **A variable inherits the value of another one**: when a script has run over some bars that
declares more variables of a kind than stand before a variable in its own script, the variable goes
on with the value that it finds, whatever has been done in between. -/
theorem variable_inherited {source source' : String} {ss' : List Statement} {p' : Program}
    (hparse : parse source = .ok ss) (hcompile : compile source = .ok p) (hkind : kind ≠ .binding)
    {i : Nat} {name : String} {value : Expr} {position : Nat}
    (hst : ss[i]? = some (.declare kind name value position)) (hparse' : parse source' = .ok ss')
    (hcompile' : compile source' = .ok p') (hmore : declared kind (ss.take i) < declared kind ss')
    {r r₁ : Runner α} {ctx ctx₁ : Context α} {count : Option Nat}
    (hbars : Runner.window r.market count ≠ [])
    (hran : r.ran ⟨source', p'⟩ ctx count = (.ok (), ctx₁, r₁)) (actions : List (Action α)) :
    let ended := r₁.session ctx₁ actions
    ∃ node, Initialiser ss p i kind.bank (declared kind (ss.take i)) value node ∧
      ∀ bar, let start := Engine.enter { ended.2.1 with market := ended.2.2.market } bar
        ∀ out c', p.step start = .ok out c' →
          p.Inherits i (kind.bank, declared kind (ss.take i)) node start := by
  intro ended
  let a : Bank × Nat := (kind.bank, declared kind (ss.take i))
  have hset : ∀ (s : Series α) (x : α), s.toList ≠ [] → (s.setCurrent x).toList ≠ [] := by
    intro s x _
    rw [Series.toList_setCurrent]
    exact List.append_ne_nil_of_right_ne_nil _ (List.cons_ne_nil _ _)
  have hshift : ∀ s : Series α, s.toList ≠ [] → s.shift.1.toList ≠ [] := by
    intro s hs
    rw [Series.toList_shift]
    exact List.append_ne_nil_of_left_ne_nil hs _
  -- the first bar of the other script writes the slot, and nothing empties it again
  have hwritten : (ctx₁.stores.slot a).toList ≠ [] := by
    obtain ⟨i', name', value', position', hst', hcount⟩ := exists_declaration hmore
    obtain ⟨node', hnode'⟩ :=
      compile_initialiser (compileStatements_of_compile hparse' hcompile') hkind hst'
    rw [hcount] at hnode'
    obtain ⟨bar, rest, hwindow⟩ := List.exists_cons_of_ne_nil hbars
    have hvisits := Runner.visits_of_ran ⟨source', p'⟩ r ctx count
    rw [hran, hwindow] at hvisits
    obtain ⟨out, c, results, hstep, -, hrest, -⟩ := Runner.visits_cons hvisits
    have hfirst : ((Engine.leave c results).stores.slot a).toList ≠ [] := by
      show (c.stores.shiftAll.slot a).toList ≠ []
      rw [Stores.slot_shiftAll]
      exact hshift _ (hnode'.written hstep)
    have hended := Runner.visits_slot (p := p') (P := fun s => s.toList ≠ []) (a := a)
      (fun _ => hset) hshift rest hfirst
    rwa [hrest] at hended
  obtain ⟨node, hnode⟩ :=
    compile_initialiser (compileStatements_of_compile hparse hcompile) hkind hst
  refine ⟨node, hnode, ?_⟩
  intro bar start out c' hstep
  have hactions : ∀ act ∈ actions, act.Runs fun _ => True := by
    intro act _
    unfold Action.Runs
    split
    · exact fun _ _ => trivial
    · trivial
  obtain ⟨hslot, -⟩ := Runner.session_slot (P := fun s => s.toList ≠ []) (a := a)
    (fun _ _ _ => hset) hshift (r := r₁) (fun _ _ => trivial) hactions hwritten
  exact hnode.inherits hslot hstep

/-- A script with one state, too, which starts with another value. -/
def sevenSource : String := "var y = 7\nreturn y"

def sevenProgram : Program :=
  ⟨[.init .states 0 (.number (.ofNat 7))], some (.single (.read (.slot .states 0) none)),
    ⟨2, 1, 0, 0⟩⟩

/-- The state that is declared as seven starts with the five of the script before, and both rows
are five. -/
theorem initialised_never :
    let bars : List (Bar Float) := [⟨0, 1, 2, 2, 2, 2, 5⟩]
    let r := Runner.configured bars true .standard
    let first := r.runIn r.context (some fiveSource) none
    let second := first.2.2.runIn first.2.1 (some sevenSource) none
    let start := Engine.enter { first.2.1 with market := first.2.2.market } 0
    compile fiveSource = .ok fiveProgram ∧ compile sevenSource = .ok sevenProgram ∧
      first.1 = .ok () ∧ Runner.window first.2.2.market none = [0] ∧ second.1 = .ok () ∧
      second.2.1.results.columns = .scalar #[5, 5] ∧
      ¬ sevenProgram.Initialises 0 (.states, 0) (.number (.ofNat 7)) start := by
  intro bars r first second start
  have hparse : parse sevenSource = .ok
      [.declare .persistent "y" (.number (.ofNat 7)) 0, .result (.single (.name "y" 17)) 10] := by
    with_unfolding_all rfl
  have hcompile : compile sevenSource = .ok sevenProgram := by
    rw [compile, hparse]
    with_unfolding_all rfl
  have hmarket : Market.ofBars bars = ⟨bars.toArray⟩ := Market.ofBars_ascending (by decide)
  have hr : r = ⟨⟨bars.toArray⟩, none, true, .standard⟩ := by rw [← hmarket]; rfl
  have hfirst : first = r.ran ⟨fiveSource, fiveProgram⟩ r.context none :=
    Runner.runIn_some compile_fiveSource (.inl rfl) _ _
  have hsecond : second = first.2.2.ran ⟨sevenSource, sevenProgram⟩ first.2.1 none := by
    refine Runner.runIn_source (fun s hs => ?_) hcompile _ _
    rw [hfirst] at hs
    cases hs
    exact compile_fiveSource
  have hruns : first.1 = .ok () ∧ Runner.window first.2.2.market none = [0] ∧ second.1 = .ok () ∧
      second.2.1.results.columns = .scalar #[5, 5] ∧
      (start.stores.slot (.states, 0)).toList = [5, 5] := by
    rw [hsecond]
    simp only [start]
    rw [hfirst, hr]
    decide +kernel
  obtain ⟨hok, hwindow, hok', hcolumns, hslot⟩ := hruns
  refine ⟨compile_fiveSource, hcompile, hok, hwindow, hok', hcolumns, ?_⟩
  intro hinitialises
  obtain ⟨plotted, c, v, c₁, plotted', c₂, htake, -, hexec, hlist⟩ := hinitialises
  cases htake
  -- the slot is not empty, so that nothing is assigned
  have hwritten : ¬ (start.stores.slot (.states, 0)).isEmpty = true := by
    rw [Series.isEmpty_iff_toList, hslot]
    exact List.cons_ne_nil _ _
  rw [Op.exec_init, if_neg hwritten] at hexec
  cases hexec
  rw [hslot] at hlist
  cases hlist

end BarScript
