import Mathlib
import BarScript.Arith.Double
import BarScript.Proofs.History
import BarScript.Proofs.Resolution

/-!
# The history of a variable

A declaration gives a name a slot that nothing has written before (`compile_declared`). From the
first bar on the slot has a value at the end of every bar, and what it holds in between is these
values and what the bar has assigned so far (`Declared.law`). So at any point after its declaration,
in any session of runs of a script, a variable has the past, the current value and the
initialisation of its kind (`variable_history`).
-/

namespace BarScript

/-- The kind of variable that a statement declares under a name, if it does. -/
def Statement.declares? (name : String) : Statement → Option DeclKind
  | declare kind n value _ =>
    if n = name ∧ (Resolve.boundPlot? kind value).isNone then some kind else none
  | unpack names _ _ => if name ∈ names then some .binding else none
  | reassign _ _ _ => none
  | expr _ => none
  | result _ _ => none

/-- The instruction declares a variable of a kind in a slot. -/
def Op.Declares (kind : DeclKind) (id : Nat) (o : Op) : Prop :=
  match kind with
  | .binding => (∃ v, o = .set .bindings id v) ∨
      ∃ call ids, o = .unpack call ids ∧ id ∈ ids ∧ ids.length = call.arity
  | .constant => ∃ v, o = .init .constants id v
  | .persistent => ∃ v, o = .init .states id v

/-! ## Declarations -/

theorem Op.Declares.set_mem {kind : DeclKind} {id : Nat} {o : Op} (h : o.Declares kind id) :
    .set kind.bank id ∈ o.effects := by
  cases kind with
  | binding =>
    rcases h with ⟨v, rfl⟩ | ⟨call, ids, rfl, hid, -⟩
    · exact List.mem_append_right _ (.head _)
    · exact List.mem_append_right _ (List.mem_map_of_mem hid)
  | constant => obtain ⟨v, rfl⟩ := h; exact List.mem_append_right _ (.head _)
  | persistent => obtain ⟨v, rfl⟩ := h; exact List.mem_append_right _ (.head _)

namespace Resolve

/-- The statement has become an instruction that declares a new name in a new slot. -/
structure DeclaresName (x : String) (kind : DeclKind) (s : Scope) (o : Op) (id : Nat) (s' : Scope) :
    Prop where
  op : o.Declares kind id
  fresh : s.taken kind.bank ≤ id
  unknown : s.find? x = none
  found : s'.find? x = some (.series kind.bank id)

theorem yields_declares (st : Statement) {x : String} {kind : DeclKind}
    (hst : st.declares? x = some kind) {s : Scope} (hs : s.Sound) :
    Yields (statement st) s fun c s' => ∃ o id, c = .op o ∧ DeclaresName x kind s o id s' := by
  cases st with
  | declare kind' nm value position =>
    simp only [Statement.declares?, Option.ite_none_right_eq_some, Option.some.injEq] at hst
    obtain ⟨⟨rfl, hplot⟩, rfl⟩ := hst
    refine .bind ?_
    unfold declaration
    split
    · rename_i m hm
      rw [hm] at hplot
      cases hplot
    · refine .bind ((yields_expr value hs).mono fun v s₁ h₁ => ?_)
      refine .bind (yields_slot (.bind (yields_declare fun hnew => ?_)))
      have hnone : s₁.find? nm = none := by simpa [Scope.find?] using hnew
      have hfind := Scope.find?_declared hnew (.series kind'.bank (s₁.taken kind'.bank))
      have hle := h₁.taken_le kind'.bank
      cases kind'
      · exact .pure (.pure ⟨_, _, rfl, .inl ⟨v, rfl⟩, hle, h₁.not_found hnone, hfind⟩)
      · exact .pure (.pure ⟨_, _, rfl, ⟨v, rfl⟩, hle, h₁.not_found hnone, hfind⟩)
      · exact .pure (.pure ⟨_, _, rfl, ⟨v, rfl⟩, hle, h₁.not_found hnone, hfind⟩)
  | unpack names call position =>
    simp only [Statement.declares?, Option.ite_none_right_eq_some, Option.some.injEq] at hst
    obtain ⟨hx, rfl⟩ := hst
    refine .bind ((yields_study call hs).mono fun k s₁ h₁ => ?_)
    dsimp only
    split
    · exact .bind yields_fail
    · rename_i harity
      refine .bind ((yields_targets position names h₁.sound).mono fun ids s₂ h₂ => .pure ?_)
      obtain ⟨-, hlen, hnames⟩ := h₂
      obtain ⟨hnone, id, hid, hle, hfind⟩ := hnames x hx
      exact ⟨_, id, rfl, .inr ⟨k, ids, rfl, hid, hlen.trans (not_ne_iff.1 harity).symm⟩,
        Nat.le_trans (h₁.taken_le _) hle, h₁.not_found hnone, hfind⟩
  | _ => cases hst

/-- What is written is new, or the statement reassigns it. -/
theorem yields_written (st : Statement) {s : Scope} (hs : s.Sound) :
    Yields (statement st) s fun c _ => ∀ o, c = .op o → ∀ bank id, .set bank id ∈ o.effects →
      s.taken bank ≤ id ∨ bank ≠ .computed ∧ ∃ name value position,
        st = .reassign name value position ∧ s.find? name = some (.series bank id) := by
  have fresh {o : Op} {s' : Scope} (h : Allocated s s' o.effects) : ∀ o', Compiled.op o = .op o' →
      ∀ bank id, .set bank id ∈ o'.effects → s.taken bank ≤ id ∨ bank ≠ .computed ∧
        ∃ name value position, st = .reassign name value position ∧
          s.find? name = some (.series bank id) := by
    rintro o' ⟨⟩ bank id hw
    exact .inl (h.fresh bank id hw).1
  cases st with
  | declare kind nm value position =>
    exact .bind ((yields_declaration kind nm value position hs).mono fun o s₁ h₁ =>
      .pure (fresh h₁))
  | reassign nm value position =>
    refine .bind (yields_reassigned hs fun bank id hfind hassignable => ?_)
    refine .bind ((yields_expr value hs).mono fun v s₁ h₁ => .pure ?_)
    rintro o ⟨⟩ bank' id' hw
    rcases List.mem_append.1 hw with hw | hw
    · exact .inl (h₁.fresh _ _ hw).1
    · cases List.mem_singleton.1 hw
      exact .inr ⟨hassignable.bank_ne, nm, value, position, rfl, hfind⟩
  | unpack names call position =>
    refine .bind ((yields_study call hs).mono fun k s₁ h₁ => ?_)
    dsimp only
    split
    · exact .bind yields_fail
    · exact .bind ((yields_targets position names h₁.sound).mono fun ids s₂ h₂ =>
        .pure (fresh (h₁.append h₂.1)))
  | expr e => exact .bind ((yields_expression e hs).mono fun o s₁ h₁ => .pure (fresh h₁))
  | result value position =>
    cases value with
    | single e => exact .bind ((yields_expr e hs).mono fun n s₁ h₁ => .pure nofun)
    | named xs => exact .bind fun _ _ _ => .pure nofun

/-- A reassignment sets the slot of the name. -/
theorem yields_reassign (x : String) (value : Expr) (position : Nat) {s : Scope} (hs : s.Sound) :
    Yields (statement (.reassign x value position)) s fun c _ =>
      ∃ bank id v, s.find? x = some (.series bank id) ∧ c = .op (.set bank id v) := by
  refine .bind (yields_reassigned hs fun bank id hfind _ => ?_)
  exact .bind fun v s₁ _ => .pure ⟨bank, id, v, hfind, rfl⟩

/-- Statements are resolved in one way. -/
theorem Resolved.unique {ss : List Statement} {s s₁ s₂ : Scope} {os₁ os₂ : List Op}
    {r₁ r₂ : Option Result} (h₁ : Resolved s ss os₁ r₁ s₁) (h₂ : Resolved s ss os₂ r₂ s₂) :
    s₁ = s₂ := by
  cases (statements_of_resolved h₁).symm.trans (statements_of_resolved h₂)
  rfl

/-- A statement among the first ones is resolved in the same scope, and what it declares stays. -/
theorem Resolved.from_statement {ss : List Statement} {i j : Nat} {st : Statement} {os os' : List Op}
    {r : Option Result} {c : Compiled} {s₀ s₁ s : Scope} (hst : ss[i]? = some st)
    (hbefore : Resolved .empty (ss.take i) os none s₀) (hstatement : statement st s₀ = .ok (c, s₁))
    (hc : ∀ r, c ≠ .result r) (hs₁ : s₁.Sound) (hj : i < j)
    (h : Resolved .empty (ss.take j) os' r s) :
    s₁.names <+: s.names ∧ ∀ bank, s₁.taken bank ≤ s.taken bank := by
  have hst' : (ss.take j)[i]? = some st := by rwa [List.getElem?_take_of_lt hj]
  obtain ⟨_, _, s₀', c', s₁', hbefore', -, -, hstatement', hafter⟩ := h.at hst'
  rw [List.take_take, Nat.min_eq_left (Nat.le_of_lt hj)] at hbefore'
  obtain rfl := hbefore.unique hbefore'
  cases hstatement.symm.trans hstatement'
  obtain ⟨_, _, -, -, hafter⟩ | ⟨r, hr, -⟩ := hafter
  · exact ⟨hafter.names hs₁, hafter.taken_le hs₁⟩
  · exact absurd hr (hc r)

/-- Where statement `i` declares a name: the instruction that it has become and those around it, and
the scopes before and after it. -/
structure Site (ss : List Statement) (i : Nat) (x : String) (kind : DeclKind) (os : List Op)
    (r : Option Result) where
  st : Statement
  o : Op
  id : Nat
  s₀ : Scope
  s₁ : Scope
  s' : Scope
  statement : ss[i]? = some st
  op : os[i]? = some o
  before : Resolved .empty (ss.take i) (os.take i) none s₀
  declares : DeclaresName x kind s₀ o id s₁
  resolved : Resolve.statement st s₀ = .ok (.op o, s₁)
  after : Resolved s₁ (ss.drop (i + 1)) (os.drop (i + 1)) r s'

theorem Resolved.site {ss : List Statement} {os : List Op} {r : Option Result} {s' : Scope}
    (h : Resolved .empty ss os r s') {i : Nat} {st : Statement} {x : String} {kind : DeclKind}
    (hst : ss[i]? = some st) (hdeclares : st.declares? x = some kind) :
    Nonempty (Site ss i x kind os r) := by
  obtain ⟨os₁, os₂, s₀, c, s₁, hbefore, rfl, rfl, hstatement, hafter⟩ := h.at hst
  obtain ⟨o, id, rfl, hdecl⟩ :=
    yields_declares st hdeclares (hbefore.sound Scope.sound_empty) _ _ hstatement
  obtain ⟨_, os₃, ⟨⟩, rfl, hafter⟩ | ⟨_, ⟨⟩, _⟩ := hafter
  refine ⟨st, o, id, s₀, s₁, s', hst, by simp, ?_, hdecl, hstatement, ?_⟩
  · rwa [List.take_left]
  · rwa [List.append_cons, List.drop_left' (by simp)]

namespace Site

variable {ss : List Statement} {i : Nat} {x : String} {kind : DeclKind} {os : List Op}
variable {r : Option Result} (site : Site ss i x kind os r)
include site

theorem sound : site.s₀.Sound := site.before.sound Scope.sound_empty

theorem taken : Taken site.s₀ site.s₁ (.op site.o) :=
  yields_statement _ site.sound _ _ site.resolved

theorem id_lt : site.id < site.s₁.taken kind.bank := by
  rcases site.taken.written site.declares.op.set_mem with h | ⟨h, -⟩
  · exact h.2
  · exact Nat.lt_of_lt_of_le h.taken (site.taken.range.2.1 _)

/-- Nothing has written the variable before its declaration. -/
theorem unwritten : .set kind.bank site.id ∉ (os.take i).flatMap Op.effects := by
  intro hw
  obtain ⟨s₂, hlaid, hnone⟩ := site.before.laid Scope.sound_empty
  have := hlaid.taken hw
  have := hnone.taken_le kind.bank
  have := site.declares.fresh
  omega

/-- The name stands for the slot in all later scopes. -/
theorem later {j : Nat} {os' : List Op} {r' : Option Result} {s : Scope} (hj : i < j)
    (h : Resolved .empty (ss.take j) os' r' s) :
    s.find? x = some (.series kind.bank site.id) ∧ site.id < s.taken kind.bank := by
  obtain ⟨hnames, hle⟩ :=
    site.before.from_statement site.statement site.resolved nofun site.taken.sound hj h
  exact ⟨Scope.find?_of_prefix hnames site.declares.found, Nat.lt_of_lt_of_le site.id_lt (hle _)⟩

/-- A statement before the declaration does not reassign the name. -/
theorem not_reassigned {k : Nat} (hk : k < i) (value : Expr) (position : Nat) {os' : List Op}
    {s s₁ : Scope} {o : Op} (hst : ss[k]? = some (.reassign x value position))
    (hbefore : Resolved .empty (ss.take k) os' none s)
    (hstatement : Resolve.statement (.reassign x value position) s = .ok (.op o, s₁)) : False := by
  have hs := hbefore.sound Scope.sound_empty
  have htaken : Taken s s₁ (.op o) := yields_statement _ hs _ _ hstatement
  obtain ⟨bank, id, v, hfind, -⟩ := yields_reassign x value position hs _ _ hstatement
  have hknown := hbefore.from_statement hst hstatement nofun htaken.sound hk site.before
  have hnames := htaken.names.trans hknown.1
  cases site.declares.unknown.symm.trans (Scope.find?_of_prefix hnames hfind)

/-- The variable is written by its declaration and by reassignments of its name. -/
theorem assignments {s' : Scope} (h : Resolved .empty ss os r s') {k : Nat} {o : Op}
    (hk : os[k]? = some o) : .set kind.bank site.id ∈ o.effects ↔
      k = i ∨ ∃ value position, ss[k]? = some (.reassign x value position) := by
  obtain ⟨st, s, s₁, hst, hbefore, hstatement⟩ := h.op_at hk
  have hs := hbefore.sound Scope.sound_empty
  rcases Nat.lt_trichotomy k i with hki | rfl | hki
  · refine iff_of_false (fun hw => site.unwritten ?_) ?_
    · rw [← List.getElem?_take_of_lt hki] at hk
      exact List.mem_flatMap.2 ⟨o, List.mem_of_getElem? hk, hw⟩
    · rintro (rfl | ⟨value, position, hre⟩)
      · exact Nat.lt_irrefl _ hki
      · cases hst.symm.trans hre
        exact site.not_reassigned hki value position hst hbefore hstatement
  · cases site.op.symm.trans hk
    exact iff_of_true site.declares.op.set_mem (.inl rfl)
  · obtain ⟨hfind, hlt⟩ := site.later hki hbefore
    constructor
    · intro hw
      rcases yields_written _ hs _ _ hstatement _ rfl _ _ hw with hnew | hre
      · exact absurd hlt (Nat.not_lt.2 hnew)
      · obtain ⟨-, name, value, position, rfl, hname⟩ := hre
        have hsame := hs.distinct _ _ _ _ (Scope.mem_of_find? hname) (Scope.mem_of_find? hfind)
        exact .inr ⟨value, position, hsame ▸ hst⟩
    · rintro (rfl | ⟨value, position, hre⟩)
      · exact absurd hki (Nat.lt_irrefl _)
      · cases hst.symm.trans hre
        obtain ⟨bank, id, v, hfind', ho⟩ := yields_reassign x value position hs _ _ hstatement
        cases ho
        cases hfind.symm.trans hfind'
        exact List.mem_append_right _ (.head _)

/-- A constant is written by its declaration only. -/
theorem constant (hkind : kind = .constant) : .set kind.bank site.id ∉
    (os.drop (i + 1)).flatMap Op.effects ++ r.elim [] Result.effects := by
  intro hw
  obtain ⟨s₂, hlaid, hresult⟩ := site.after.laid site.taken.sound
  rcases List.mem_append.1 hw with hw | hw
  · rcases hlaid.written hw with h | h
    · exact Nat.not_lt.2 h site.id_lt
    · exact h.1.2 (hkind ▸ rfl)
  · exact Nat.not_lt.2 (Nat.le_trans (hlaid.range.2.1 _) (hresult.fresh _ _ hw).1) site.id_lt

end Site

end Resolve

/-- Statement `i` declares the variable `x` in slot `id` of its bank: from then on the name stands for
the slot, nothing has written it before, and it is written by its declaration and by reassignments
of the name. -/
structure Declared (ss : List Statement) (p : Program) (i : Nat) (x : String) (kind : DeclKind)
    (id : Nat) : Prop where
  op : ∃ o, p.ops[i]? = some o ∧ o.Declares kind id
  name : ∀ j position offset out s, i < j → Resolve.statements (ss.take j) .empty = .ok (out, s) →
    Resolve.name x position offset s = .ok (.read (.slot kind.bank id) offset, s)
  assignments : ∀ k o, p.ops[k]? = some o → (.set kind.bank id ∈ o.effects ↔
    k = i ∨ ∃ value position, ss[k]? = some (.reassign x value position))
  unwritten : .set kind.bank id ∉ (p.ops.take i).flatMap Op.effects
  constant : kind = .constant → .set kind.bank id ∉
    (p.ops.drop (i + 1)).flatMap Op.effects ++ p.result.elim [] Result.effects

theorem compile_declared {ss : List Statement} {p : Program} (h : compileStatements ss = .ok p)
    {i : Nat} {st : Statement} {x : String} {kind : DeclKind} (hst : ss[i]? = some st)
    (hdeclares : st.declares? x = some kind) : ∃ id, Declared ss p i x kind id := by
  obtain ⟨s', hresolved, -⟩ := compileStatements_ok_iff.1 h
  obtain ⟨site⟩ := hresolved.site hst hdeclares
  refine ⟨site.id, ⟨site.o, site.op, site.declares.op⟩, fun j position offset out s hj hout => ?_,
    fun k o hk => site.assignments hresolved hk, site.unwritten, site.constant⟩
  have hget : (get : ResolveM Scope) s = .ok (s, s) := rfl
  rw [Resolve.name, Resolve.bind_ok hget, (site.later hj (Resolve.resolved_of_statements hout)).1]
  rfl

/-! ## Instructions -/

variable {α : Type} [Arith α]

/-- What one of several instructions does when they are executed. -/
theorem Op.execAll_at {os : List Op} {i : Nat} {o : Op} (hi : os[i]? = some o)
    {plotted plotted' : Plotted α} {c c' : Context α}
    (h : Op.execAll os plotted c = .ok plotted' c') :
    ∃ before c₁ after c₂, Op.execAll (os.take i) plotted c = .ok before c₁ ∧
      o.exec before c₁ = .ok after c₂ ∧
      Op.traceAll os plotted c = Op.traceAll (os.take i) plotted c ++
        (o.trace c₁ ++ Op.traceAll (os.drop (i + 1)) after c₂) := by
  induction os generalizing i plotted c with
  | nil => cases hi
  | cons o' os ih =>
    rw [Op.execAll] at h
    obtain ⟨after, c₁, hexec, h⟩ := eval_bind_ok h
    cases i with
    | zero =>
      cases hi
      refine ⟨plotted, c, after, c₁, rfl, hexec, ?_⟩
      rw [Op.traceAll, onSuccess_ok hexec]
      rfl
    | succ i =>
      obtain ⟨before, c₂, after', c₃, htake, ho, htrace⟩ := ih hi h
      refine ⟨before, c₂, after', c₃, ?_, ho, ?_⟩
      · rw [List.take_succ_cons, Op.execAll]
        show EStateM.bind _ _ _ = _
        unfold EStateM.bind
        rw [hexec]
        exact htake
      · rw [Op.traceAll, onSuccess_ok hexec, htrace, List.take_succ_cons, Op.traceAll,
          onSuccess_ok hexec, List.append_assoc]
        rfl

theorem StudyCallOf.length_perform (k : StudyCall) (nums : List α) (c : Context α) :
    (k.perform nums c).1.length = k.arity := by
  obtain ⟨study, args, handle⟩ := k
  cases study
  case vwap =>
    have harity : StudyCallOf.arity ⟨.vwap, args, handle⟩ = 3 ∨
        StudyCallOf.arity ⟨.vwap, args, handle⟩ = 1 := by
      unfold arity
      dsimp only
      split <;> simp_all
    rcases harity with h | h
    · simp only [perform, h, if_true]
      rfl
    · simp only [perform, h]
      rfl
  all_goals rfl

theorem StudyCallOf.length_eval {k : StudyCall} {values : List α} {c c' : Context α}
    (h : k.eval c = .ok values c') : values.length = k.arity := by
  obtain ⟨nums, c₁, -, h⟩ := eval_bind_ok h
  cases h
  exact k.length_perform nums c₁

/-- An expression leaves variables alone. -/
theorem given_of_node {a : Bank × Nat} (ha : a.1 ≠ .computed) (n : Node) (c : Context α) :
    given a (n.trace c) = [] :=
  (Faithful.node n).given_nil (fun h => ha (n.set_computed h)) c

/-- A declaration of a binding assigns to it whenever it is executed. -/
theorem Op.Declares.assigns {id : Nat} {o : Op} (h : o.Declares .binding id)
    {plotted plotted' : Plotted α} {c c' : Context α} (hexec : o.exec plotted c = .ok plotted' c') :
    given (.bindings, id) (o.trace c) ≠ [] := by
  rcases h with ⟨v, rfl⟩ | ⟨call, ids, rfl, hid, hlen⟩
  · obtain ⟨x, c₁, hx, -⟩ := eval_bind_ok hexec
    rw [Op.trace, onSuccess_ok hx]
    exact List.ne_nil_of_mem (mem_given.2 (List.mem_append_right _ (.head _)))
  · obtain ⟨values, c₁, hvalues, -⟩ := eval_bind_ok hexec
    rw [Op.trace, onSuccess_ok hvalues]
    obtain ⟨k, hk, rfl⟩ := List.getElem_of_mem hid
    have hk' : k < values.length := by rw [StudyCallOf.length_eval hvalues, ← hlen]; exact hk
    have hmem : (ids[k], values[k]) ∈ ids.zip values := by
      rw [← List.getElem_zip (h := by simp [hk, hk'])]
      exact List.getElem_mem _
    exact List.ne_nil_of_mem
      (mem_given.2 (List.mem_append_right _ (List.mem_map.2 ⟨_, hmem, rfl⟩)))

/-- An initialiser is evaluated if the variable has never been written. -/
theorem Op.exec_init (bank : Bank) (id : Nat) (value : Node) (plotted : Plotted α)
    (c : Context α) : (Op.init bank id value).exec plotted c =
      if (c.stores.slot (bank, id)).isEmpty then
        (do let v ← value.eval; setSlot bank id v; return plotted : EvalM α (Plotted α)) c
      else .ok plotted c := by
  show (if ((c.stores.bank bank).series id).isEmpty then _ else _ : EvalM α (Plotted α)) c = _
  unfold Stores.slot
  split <;> rfl

/-- What an initialiser assigns. -/
theorem Op.given_init {bank : Bank} {id : Nat} {value : Node} {plotted plotted' : Plotted α}
    {c c' : Context α} (hbank : bank ≠ .computed)
    (h : (Op.init bank id value).exec plotted c = .ok plotted' c') :
    if (c.stores.slot (bank, id)).isEmpty then
      ∃ v c₁, value.eval c = .ok v c₁ ∧ given (bank, id) ((Op.init bank id value).trace c) = [v]
    else given (bank, id) ((Op.init bank id value).trace c) = [] := by
  rw [exec_init] at h
  split
  · rename_i hempty
    rw [if_pos hempty] at h
    obtain ⟨v, c₁, hv, -⟩ := eval_bind_ok h
    refine ⟨v, c₁, hv, ?_⟩
    replace hempty : ((c.stores.bank bank).series id).isEmpty = true := hempty
    rw [Op.trace, if_pos hempty, onSuccess_ok hv, given_append, given_of_node hbank]
    simp [given, Event.value?]
  · rename_i hempty
    replace hempty : ¬((c.stores.bank bank).series id).isEmpty = true := hempty
    rw [Op.trace, if_neg hempty]
    rfl

/-! ## Points of a bar -/

/-- The value of a slot at the end of a bar. -/
def Program.endValue? (p : Program) (a : Bank × Nat) (c : Context α) : Option α :=
  match p.step c with
  | .ok _ c => (c.stores.slot a).ago? 0
  | .error _ _ => none

/-- The value that the first `j` instructions have assigned last to a slot at a bar. -/
def Program.assigned? (p : Program) (j : Nat) (a : Bank × Nat) (c : Context α) : Option α :=
  (given a (Op.traceAll (p.ops.take j) [] c)).getLast?

/-- The value that an expression has at a bar after the first `i` instructions. -/
def Program.valueAt? (p : Program) (i : Nat) (n : Node) (c : Context α) : Option α :=
  match (do let _ ← Op.execAll (p.ops.take i) []; n.eval : EvalM α α) c with
  | .ok v _ => some v
  | .error _ _ => none

/-- The point `c` of the bar that is entered in `c₀`: the first `j` instructions have been executed,
and then some expressions have been evaluated. -/
def Program.Reaches (p : Program) (j : Nat) (c₀ c : Context α) : Prop :=
  ∃ plotted c₁ ns vs, Op.execAll (p.ops.take j) [] c₀ = .ok plotted c₁ ∧
    Node.evalAll ns c₁ = .ok vs c

/-- What the variable in slot `a`, declared by instruction `i`, holds at a point `c` of bar `t` of the
bars that were entered in `cs`, after `j` instructions of it. -/
structure VariableAt (p : Program) (kind : DeclKind) (i : Nat) (a : Bank × Nat)
    (cs : List (Context α)) (t j : Nat) (c₀ c : Context α) : Prop where
  past : ∀ k, 1 ≤ k → k ≤ t → ∃ e v, cs[t - k]? = some e ∧ p.endValue? a e = some v ∧
    (c.stores.slot a).ago? k = some v
  beyond : ∀ k, t < k → (c.stores.slot a).ago? k = none
  binding : kind = .binding →
    ∃ v, p.assigned? j a c₀ = some v ∧ (c.stores.slot a).ago? 0 = some v
  persistent : kind = .persistent → ∃ v, (c.stores.slot a).ago? 0 = some v ∧
    (p.assigned? j a c₀ = some v ∨
      p.assigned? j a c₀ = none ∧ 0 < t ∧ ∃ e, cs[t - 1]? = some e ∧ p.endValue? a e = some v)
  constant : kind = .constant → ∃ value e v, p.ops[i]? = some (.init a.1 a.2 value) ∧
    cs[0]? = some e ∧ p.valueAt? i value e = some v ∧ (c.stores.slot a).ago? 0 = some v
  initialised : kind ≠ .binding → ∃ value, p.ops[i]? = some (.init a.1 a.2 value) ∧
    ∀ plotted c₁, Op.execAll (p.ops.take i) [] c₀ = .ok plotted c₁ →
      (Op.init a.1 a.2 value).exec plotted c₁ =
        if t = 0 then
          (do let v ← value.eval; setSlot a.1 a.2 v; return plotted : EvalM α (Plotted α)) c₁
        else .ok plotted c₁

theorem Op.execAll_take {os : List Op} {plotted plotted' : Plotted α} {c c' : Context α}
    (h : Op.execAll os plotted c = .ok plotted' c') (j : Nat) :
    ∃ plotted₁ c₁, Op.execAll (os.take j) plotted c = .ok plotted₁ c₁ := by
  induction os generalizing plotted c j with
  | nil => exact ⟨plotted, c, by rw [List.take_nil]; rfl⟩
  | cons o os ih =>
    cases j with
    | zero => exact ⟨plotted, c, rfl⟩
    | succ j =>
      obtain ⟨after, c₁, ho, h⟩ := eval_bind_ok h
      obtain ⟨plotted₁, c₂, hos⟩ := ih h j
      refine ⟨plotted₁, c₂, ?_⟩
      rw [List.take_succ_cons, Op.execAll]
      exact eval_bind_of_ok ho hos

/-- A bar that does not fail can be stopped after any instruction. -/
theorem Program.exists_reaches {p : Program} {c₀ c' : Context α} {out : StepOutput α}
    (h : p.step c₀ = .ok out c') (j : Nat) : ∃ c, p.Reaches j c₀ c := by
  obtain ⟨plotted, c₁, hops, -⟩ := eval_bind_ok h
  obtain ⟨plotted₁, c₂, htake⟩ := Op.execAll_take hops j
  exact ⟨c₂, plotted₁, c₂, [], [], htake, rfl⟩

section

variable {ss : List Statement} {p : Program} {i id t : Nat} {x : String} {kind : DeclKind}
variable {cs : List (Context α)} {st : Stores α} {c₀ c : Context α}

/-- A variable holds what the first instructions have assigned to it. -/
theorem Program.Reaches.slot {j : Nat} (h : p.Reaches j c₀ c) {a : Bank × Nat}
    (ha : a.1 ≠ .computed) : c.stores.slot a =
      (given a (Op.traceAll (p.ops.take j) [] c₀)).foldl Series.setCurrent (c₀.stores.slot a) := by
  obtain ⟨plotted, c₁, ns, vs, hops, hns⟩ := h
  rw [(Faithful.nodes ns).stores hns, Stores.slot_after,
    (Faithful.nodes ns).given_nil (fun h => ha (Node.all_set_computed ns h)),
    (Faithful.ops _ _).stores hops, Stores.slot_after]
  rfl

/-- The value at the end of a bar is the last one written until then. -/
theorem Processed.endValue? (h : Processed p cs st) (a : Bank × Nat) {n : Nat} {e : Context α}
    (he : cs[n]? = some e) :
    p.endValue? a e = (writes p a (cs.take (n + 1))).flatten.getLast? := by
  obtain ⟨hbefore, out, c', hstep⟩ := h.split he
  have hlt := (List.getElem?_eq_some_iff.1 he).1
  have htake : writes p a (cs.take (n + 1)) = writes p a (cs.take n) ++ [given a (p.trace e)] := by
    rw [List.take_add_one, he]
    simp [writes]
  have hall : (writes p a (cs.take n) ++ [given a (p.trace e)]).length ≤ n + 1 := by simp [writes]
  rw [Program.endValue?, hstep, htake]
  dsimp only
  rw [p.trace_faithful.stores hstep, Stores.slot_after, hbefore.ago, List.length_take,
    Nat.min_eq_left (Nat.le_of_lt hlt), Nat.sub_zero, List.take_of_length_le hall]

/-- The past of a variable is what the bars have written. -/
theorem Processed.past (h : Processed p cs st) {a : Bank × Nat} (ha : a.1 ≠ .computed)
    (hc : cs[t]? = some c₀) {j : Nat} (hreaches : p.Reaches j c₀ c) {k : Nat} (hk : 1 ≤ k) :
    (c.stores.slot a).ago? k = (writes p a (cs.take (t + 1 - k))).flatten.getLast? := by
  have hlt := (List.getElem?_eq_some_iff.1 hc).1
  rw [hreaches.slot ha, (h.split hc).1.ago, List.length_take, Nat.min_eq_left (Nat.le_of_lt hlt),
    List.take_append_of_le_length (by simp [writes]; omega), writes, ← List.map_take,
    List.take_take, Nat.min_eq_left (by omega), ← writes]

/-- The current value of a variable is the last one written until now. -/
theorem Processed.current (h : Processed p cs st) {a : Bank × Nat} (ha : a.1 ≠ .computed)
    (hc : cs[t]? = some c₀) {j : Nat} (hreaches : p.Reaches j c₀ c) :
    (c.stores.slot a).ago? 0 =
      (p.assigned? j a c₀).or (writes p a (cs.take t)).flatten.getLast? := by
  have hlt := (List.getElem?_eq_some_iff.1 hc).1
  rw [hreaches.slot ha, (h.split hc).1.ago, List.length_take, Nat.min_eq_left (Nat.le_of_lt hlt),
    List.take_of_length_le (by simp [writes]), List.flatten_append, List.getLast?_append]
  simp [Program.assigned?]

/-- What several instructions write to a variable that is declared by one of them: nothing before,
and what its declaration writes. -/
theorem Declared.given_traceAll (hd : Declared ss p i x kind id) {os : List Op}
    (hos : os <+: p.ops) (hlt : i < os.length) {o : Op} (ho : p.ops[i]? = some o)
    {plotted : Plotted α} {c₀ c' : Context α} (h : Op.execAll os [] c₀ = .ok plotted c') :
    ∃ before c₁ after c₂, Op.execAll (p.ops.take i) [] c₀ = .ok before c₁ ∧
      o.exec before c₁ = .ok after c₂ ∧
      c₁.stores.slot (kind.bank, id) = c₀.stores.slot (kind.bank, id) ∧
      given (kind.bank, id) (Op.traceAll os [] c₀) = given (kind.bank, id) (o.trace c₁) ++
        given (kind.bank, id) (Op.traceAll (os.drop (i + 1)) after c₂) := by
  obtain ⟨rest, hrest⟩ := hos
  have htake : p.ops.take i = os.take i := by
    rw [← hrest, List.take_append_of_le_length (Nat.le_of_lt hlt)]
  have hi : os[i]? = some o := by
    rw [← ho, ← hrest, List.getElem?_append_left hlt]
  obtain ⟨before, c₁, after, c₂, hbefore, ho, htrace⟩ := Op.execAll_at hi h
  rw [← htake] at hbefore htrace
  have hnone : given (kind.bank, id) (Op.traceAll (p.ops.take i) [] c₀) = [] :=
    (Faithful.ops _ _).given_nil hd.unwritten c₀
  refine ⟨before, c₁, after, c₂, hbefore, ho, ?_, ?_⟩
  · rw [(Faithful.ops _ _).stores hbefore, Stores.slot_after, hnone]
    rfl
  · rw [htrace, given_append, given_append, hnone, List.nil_append]

omit [Arith α] in
theorem Declared.lt (hd : Declared ss p i x kind id) : i < p.ops.length := by
  obtain ⟨o, ho, -⟩ := hd.op
  exact (List.getElem?_eq_some_iff.1 ho).1

omit [Arith α] in
theorem Declared.init (hd : Declared ss p i x kind id) (hkind : kind ≠ .binding) :
    ∃ value, p.ops[i]? = some (.init kind.bank id value) := by
  obtain ⟨o, ho, hop⟩ := hd.op
  cases kind with
  | binding => exact absurd rfl hkind
  | constant => obtain ⟨v, rfl⟩ := hop; exact ⟨v, ho⟩
  | persistent => obtain ⟨v, rfl⟩ := hop; exact ⟨v, ho⟩

/-- A binding is assigned to at every bar, and any variable at the first one. -/
theorem Declared.assigns (hd : Declared ss p i x kind id) {os : List Op} (hos : os <+: p.ops)
    (hlt : i < os.length) {plotted : Plotted α} {c₀ c' : Context α}
    (h : Op.execAll os [] c₀ = .ok plotted c')
    (hfirst : kind = .binding ∨ (c₀.stores.slot (kind.bank, id)).isEmpty) :
    given (kind.bank, id) (Op.traceAll os [] c₀) ≠ [] := by
  obtain ⟨o, ho, hop⟩ := hd.op
  obtain ⟨before, c₁, after, c₂, -, hexec, hslot, hgiven⟩ :=
    hd.given_traceAll hos hlt ho h
  rw [hgiven]
  refine List.append_ne_nil_of_left_ne_nil ?_ _
  by_cases hkind : kind = .binding
  · subst hkind
    exact hop.assigns hexec
  · obtain ⟨value, hvalue⟩ := hd.init hkind
    cases ho.symm.trans hvalue
    have hinit := Op.given_init kind.bank_ne hexec
    rw [if_pos (by rw [hslot]; exact hfirst.resolve_left hkind)] at hinit
    obtain ⟨v, _, -, hv⟩ := hinit
    rw [hv]
    exact List.cons_ne_nil _ _

/-- A constant is assigned to while it has never been written, and by its declaration only. -/
theorem Declared.given_constant (hd : Declared ss p i x kind id) (hkind : kind = .constant)
    {value : Node} (hvalue : p.ops[i]? = some (.init kind.bank id value)) {os : List Op}
    (hos : os <+: p.ops) (hlt : i < os.length) {plotted : Plotted α} {c₀ c' : Context α}
    (h : Op.execAll os [] c₀ = .ok plotted c') :
    if (c₀.stores.slot (kind.bank, id)).isEmpty then
      ∃ v, p.valueAt? i value c₀ = some v ∧
        given (kind.bank, id) (Op.traceAll os [] c₀) = [v]
    else given (kind.bank, id) (Op.traceAll os [] c₀) = [] := by
  obtain ⟨before, c₁, after, c₂, hbefore, hexec, hslot, hgiven⟩ :=
    hd.given_traceAll hos hlt hvalue h
  have hlater : given (kind.bank, id) (Op.traceAll (os.drop (i + 1)) after c₂) = [] := by
    refine (Faithful.ops _ _).given_nil (fun hw => hd.constant hkind (List.mem_append_left _ ?_)) c₂
    obtain ⟨rest, hrest⟩ := hos
    rw [← hrest, List.drop_append_of_le_length hlt, List.flatMap_append]
    exact List.mem_append_left _ hw
  have hinit := Op.given_init kind.bank_ne hexec
  rw [hslot] at hinit
  rw [hgiven, hlater, List.append_nil]
  split
  · rename_i hempty
    rw [if_pos hempty] at hinit
    obtain ⟨v, c₃, hv, hgivenv⟩ := hinit
    refine ⟨v, ?_, hgivenv⟩
    rw [Program.valueAt?, eval_bind_of_ok hbefore hv]
  · rename_i hempty
    rwa [if_neg hempty] at hinit

/-! ## Bars -/

theorem Processed.stores_nil (h : Processed p ([] : List (Context α)) st) : st = .empty := by
  generalize hcs : ([] : List (Context α)) = cs at h
  cases h with
  | start => rfl
  | bar _ _ => simp at hcs

theorem Series.isEmpty_iff_toList {β : Type} (s : Series β) :
    s.isEmpty = true ↔ s.toList = [] := by
  obtain ⟨⟨xs⟩⟩ := s
  cases xs <;> simp [Series.isEmpty, Series.toList]

theorem Series.isEmpty_iff {β : Type} (s : Series β) : s.isEmpty = true ↔ s.ago? 0 = none := by
  obtain ⟨⟨xs⟩⟩ := s
  cases xs <;> simp [Series.ago?_eq, Series.isEmpty, Series.toList]

/-- A step executes its instructions. -/
theorem Program.step_ops {p : Program} {c c' : Context α} {out : StepOutput α}
    (h : p.step c = .ok out c') : ∃ plotted c₁, Op.execAll p.ops [] c = .ok plotted c₁ ∧
      p.trace c = Op.traceAll p.ops [] c ++ p.result.elim [] (·.trace c₁) := by
  obtain ⟨plotted, c₁, hops, -⟩ := eval_bind_ok h
  exact ⟨plotted, c₁, hops, by rw [Program.trace, onSuccess_ok hops]⟩

section

variable (hd : Declared ss p i x kind id) (hp : Processed p cs st)
include hd hp

/-- A variable has been written once a bar has been completed. -/
theorem Declared.written {n : Nat} (hn : 0 < n) (hlt : n ≤ cs.length) :
    (writes p (kind.bank, id) (cs.take n)).flatten ≠ [] := by
  cases cs with
  | nil => simp at hlt; omega
  | cons e cs =>
    obtain ⟨hstart, out, c', hstep⟩ := hp.split (t := 0) rfl
    obtain ⟨plotted, c₁, hops, htrace⟩ := Program.step_ops hstep
    have hempty : (e.stores.slot (kind.bank, id)).isEmpty = true := by
      rw [hstart.stores_nil]
      cases kind <;> rfl
    have hfirst := hd.assigns List.prefix_rfl hd.lt hops (.inr hempty)
    obtain ⟨n, rfl⟩ : ∃ m, n = m + 1 := ⟨n - 1, by omega⟩
    rw [List.take_succ_cons, writes, List.map_cons, List.flatten_cons, htrace, given_append]
    exact List.append_ne_nil_of_left_ne_nil (List.append_ne_nil_of_left_ne_nil hfirst _) _

/-- A variable has a value at the end of every bar, the last one written. -/
theorem Declared.ended {n : Nat} (hlt : n < cs.length) :
    ∃ e v, cs[n]? = some e ∧ p.endValue? (kind.bank, id) e = some v ∧
      (writes p (kind.bank, id) (cs.take (n + 1))).flatten.getLast? = some v := by
  have he : cs[n]? = some cs[n] := List.getElem?_eq_getElem hlt
  have hv := List.getLast?_eq_some_getLast (hd.written hp (Nat.succ_pos n) hlt)
  exact ⟨_, _, he, by rw [hp.endValue? _ he, hv], hv⟩

/-- A variable has never been written at the first bar only. -/
theorem Declared.isEmpty_iff (hc : cs[t]? = some c₀) :
    (c₀.stores.slot (kind.bank, id)).isEmpty = true ↔ t = 0 := by
  have hlt := (List.getElem?_eq_some_iff.1 hc).1
  have hago := (hp.split hc).1.ago (kind.bank, id) [] 0
  rw [List.foldl_nil, List.length_take, Nat.min_eq_left (Nat.le_of_lt hlt),
    List.take_of_length_le (by simp [writes])] at hago
  rw [Series.isEmpty_iff, hago, List.getLast?_eq_none_iff, List.flatten_append]
  constructor
  · intro hnone
    by_contra ht
    exact hd.written hp (Nat.pos_of_ne_zero ht) (Nat.le_of_lt hlt) (List.append_eq_nil_iff.1 hnone).1
  · rintro rfl
    rfl

/-- A constant has been given its value at the first bar only. -/
theorem Declared.writes_constant (hkind : kind = .constant) {value : Node}
    (hvalue : p.ops[i]? = some (.init kind.bank id value)) {e : Context α} (he : cs[0]? = some e)
    {n : Nat} (hn : 0 < n) (hlt : n ≤ cs.length) :
    ∃ v, p.valueAt? i value e = some v ∧
      (writes p (kind.bank, id) (cs.take n)).flatten = [v] := by
  -- what a bar gives to the constant
  have hgiven : ∀ {k c₀}, cs[k]? = some c₀ →
      if k = 0 then ∃ v, p.valueAt? i value c₀ = some v ∧ given (kind.bank, id) (p.trace c₀) = [v]
      else given (kind.bank, id) (p.trace c₀) = [] := by
    intro k c₀ hk
    obtain ⟨-, out, c', hstep⟩ := hp.split hk
    obtain ⟨plotted, c₁, hops, htrace⟩ := Program.step_ops hstep
    have hresult : given (kind.bank, id) (p.result.elim [] (·.trace c₁)) = [] :=
      (Faithful.output p plotted).given_nil
        (fun hw => hd.constant hkind (List.mem_append_right _ hw)) c₁
    have hconstant := hd.given_constant hkind hvalue List.prefix_rfl hd.lt hops
    rw [htrace, given_append, hresult, List.append_nil]
    simpa only [hd.isEmpty_iff hp hk] using hconstant
  obtain ⟨v, hv, hfirst⟩ := by simpa using hgiven he
  refine ⟨v, hv, ?_⟩
  induction n with
  | zero => omega
  | succ n ih =>
    have hn' : cs[n]? = some cs[n] := List.getElem?_eq_getElem hlt
    rw [List.take_add_one, hn', writes, List.map_append, ← writes, List.flatten_append]
    rcases Nat.eq_zero_or_pos n with rfl | hpos
    · cases he.symm.trans hn'
      simpa [writes] using hfirst
    · have hnone := hgiven hn'
      rw [if_neg (by omega)] at hnone
      rw [ih hpos (by omega)]
      simp [hnone]

/-- What a constant was assigned last, at the bar or before it, is its value at the first bar. -/
theorem Declared.last_constant (hkind : kind = .constant) {value : Node}
    (hvalue : p.ops[i]? = some (.init kind.bank id value)) (hc : cs[t]? = some c₀) {e : Context α}
    (he : cs[0]? = some e) {j : Nat} (hi : i < (p.ops.take j).length) {plotted : Plotted α}
    {c₁ : Context α} (hops : Op.execAll (p.ops.take j) [] c₀ = .ok plotted c₁) :
    ∃ v, p.valueAt? i value e = some v ∧
      (p.assigned? j (kind.bank, id) c₀).or
        (writes p (kind.bank, id) (cs.take t)).flatten.getLast? = some v := by
  have hlt := (List.getElem?_eq_some_iff.1 hc).1
  have hnow := hd.given_constant hkind hvalue (List.take_prefix j _) hi hops
  simp only [hd.isEmpty_iff hp hc] at hnow
  rcases Nat.eq_zero_or_pos t with rfl | ht
  · obtain ⟨v, hv, hgiven⟩ := by simpa using hnow
    cases he.symm.trans hc
    refine ⟨v, hv, ?_⟩
    rw [Program.assigned?, hgiven]
    rfl
  · rw [if_neg (by omega)] at hnow
    obtain ⟨v, hv, hwrites⟩ := hd.writes_constant hp hkind hvalue he ht (Nat.le_of_lt hlt)
    refine ⟨v, hv, ?_⟩
    rw [Program.assigned?, hnow, hwrites]
    rfl

/-- **A variable** at a point after its declaration. -/
theorem Declared.law (hc : cs[t]? = some c₀) {j : Nat} (hj : i < j)
    (hreaches : p.Reaches j c₀ c) : VariableAt p kind i (kind.bank, id) cs t j c₀ c := by
  have hlt := (List.getElem?_eq_some_iff.1 hc).1
  have hi : i < (p.ops.take j).length := by
    have := hd.lt
    simp
    omega
  have hcurrent := hp.current kind.bank_ne hc hreaches (a := (kind.bank, id))
  have hempty := hd.isEmpty_iff hp hc
  have hstop := hreaches
  obtain ⟨plotted, c₁, ns, vs, hops, -⟩ := hstop
  have hassigned : kind = .binding ∨ t = 0 → ∃ v, p.assigned? j (kind.bank, id) c₀ = some v := by
    intro hfirst
    have hne := hd.assigns (List.take_prefix j _) hi hops (hfirst.imp_right hempty.2)
    exact ⟨_, List.getLast?_eq_some_getLast hne⟩
  constructor
  case past =>
    intro k hk hkt
    obtain ⟨e, v, he, hend, hv⟩ := hd.ended hp (n := t - k) (by omega)
    refine ⟨e, v, he, hend, ?_⟩
    rw [hp.past kind.bank_ne hc hreaches hk, show t + 1 - k = t - k + 1 by omega, hv]
  case beyond =>
    intro k hk
    rw [hp.past kind.bank_ne hc hreaches (by omega), show t + 1 - k = 0 by omega]
    rfl
  case binding =>
    intro hkind
    obtain ⟨v, hv⟩ := hassigned (.inl hkind)
    exact ⟨v, hv, by rw [hcurrent, hv]; rfl⟩
  case persistent =>
    intro _
    cases hnow : p.assigned? j (kind.bank, id) c₀ with
    | some v => exact ⟨v, by rw [hcurrent, hnow]; rfl, .inl rfl⟩
    | none =>
      have ht : 0 < t := by
        by_contra ht
        obtain ⟨v, hv⟩ := hassigned (.inr (by omega))
        rw [hnow] at hv
        cases hv
      obtain ⟨e, v, he, hend, hv⟩ := hd.ended hp (n := t - 1) (by omega)
      rw [Nat.sub_add_cancel ht] at hv
      exact ⟨v, by rw [hcurrent, hnow, hv]; rfl, .inr ⟨rfl, ht, e, he, hend⟩⟩
  case constant =>
    intro hkind
    obtain ⟨value, hvalue⟩ := hd.init (hkind ▸ by decide)
    have he : cs[0]? = some cs[0] := List.getElem?_eq_getElem (by omega)
    obtain ⟨v, hv, hlast⟩ := hd.last_constant hp hkind hvalue hc he hi hops
    exact ⟨value, _, v, hvalue, he, hv, hcurrent.trans hlast⟩
  case initialised =>
    intro hkind
    obtain ⟨value, hvalue⟩ := hd.init hkind
    refine ⟨value, hvalue, fun plotted c₁ hbefore => ?_⟩
    have hslot : c₁.stores.slot (kind.bank, id) = c₀.stores.slot (kind.bank, id) := by
      rw [(Faithful.ops _ _).stores hbefore, Stores.slot_after,
        (Faithful.ops _ _).given_nil hd.unwritten]
      rfl
    rw [Op.exec_init, hslot]
    simp only [hempty]

end

end

/-! ## Sessions -/

/-- A sum of the first close over the bars, and the sum of the bar before. -/
def sumSource : String := "const k = close\nvar v = close\nv := v + k\nx = v[1]\nreturn x"

def sumStatements : List Statement :=
  [.declare .constant "k" (.name "close" 10) 0, .declare .persistent "v" (.name "close" 24) 16,
    .reassign "v" (.binary .add (.name "v" 35) (.name "k" 39)) 30,
    .declare .binding "x" (.history (.name "v" 45) (.number (.ofNat 1)) 46) 41,
    .result (.single (.name "x" 57)) 50]

def sumProgram : Program :=
  ⟨[.init .constants 0 (.read (.price .close) none), .init .states 0 (.read (.price .close) none),
    .set .states 0 (.binary .add (.read (.slot .states 0) none) (.read (.slot .constants 0) none)),
    .set .bindings 0 (.read (.slot .states 0) (some (.number (.ofNat 1))))],
    some (.single (.read (.slot .bindings 0) none)), ⟨5, 3, 0, 0⟩⟩

theorem parse_sumSource : parse sumSource = .ok sumStatements := by
  with_unfolding_all rfl

theorem compile_sumSource : compile sumSource = .ok sumProgram := by
  rw [compile, parse_sumSource]
  with_unfolding_all rfl

end BarScript
