import Mathlib
import BarScript.Arith.Double
import BarScript.Proofs.HoistedRun
import BarScript.Proofs.NamedStatement

/-!
# An argument that is given a name

Naming a series argument changes nothing (`named_argument`): the script that declares `v = e` before
the statement, and reads `v` in the call, has at every bar the results and outputs that the script
with the argument `e` has. The two programs differ by a renaming that moves the slots and the handles
of `e` in front of what the statement takes before it reaches `e` (`Layout.renumber`).
-/

namespace BarScript

/-! ## The renaming -/

/-- Moves the numbers from `y` to `z` in front of those from `x` to `y`. -/
def rotate (x y z i : Nat) : Nat :=
  if x ≤ i ∧ i < y then i + (z - y) else if y ≤ i ∧ i < z then i - (y - x) else i

section

variable {x y z i : Nat}

theorem rotate_front (hi : x ≤ i) (hi' : i < y) : rotate x y z i = i + (z - y) := if_pos ⟨hi, hi'⟩

theorem rotate_back (hi : y ≤ i) (hi' : i < z) : rotate x y z i = i - (y - x) := by
  rw [rotate, if_neg (by omega), if_pos ⟨hi, hi'⟩]

theorem rotate_below (hi : i < x) (hxy : x ≤ y) : rotate x y z i = i := by
  rw [rotate, if_neg (by omega), if_neg (by omega)]

theorem rotate_above (hi : z ≤ i) (hyz : y ≤ z) : rotate x y z i = i := by
  rw [rotate, if_neg (by omega), if_neg (by omega)]

theorem rotate_lt (hyz : y ≤ z) : rotate x y z i < z ↔ i < z := by
  unfold rotate
  split_ifs <;> omega

theorem rotate_injective (hxy : x ≤ y) (hyz : y ≤ z) : Function.Injective (rotate x y z) := by
  intro i j h
  unfold rotate at h
  split_ifs at h <;> omega

end

/-- How many numbers are taken before the statement (`slot`, `handle`), and where those of the series
begin and end (`start`, `stop`, `startHandle`, `stopHandle`). The series itself has the slot `stop`. -/
structure Layout where
  bindings : Nat
  slot : Nat
  start : Nat
  stop : Nat
  handle : Nat
  startHandle : Nat
  stopHandle : Nat
  slot_le : slot ≤ start
  start_le : start ≤ stop
  handle_le : handle ≤ startHandle
  startHandle_le : startHandle ≤ stopHandle

namespace Layout

variable (L : Layout)

/-- The new number of a slot. The slot of the series becomes a binding. -/
def move : Bank × Nat → Bank × Nat
  | (.computed, i) =>
    if i < L.stop then (.computed, rotate L.slot L.start L.stop i)
    else if i = L.stop then (.bindings, L.bindings)
    else (.computed, i - 1)
  | (.bindings, i) => (.bindings, if i < L.bindings then i else i + 1)
  | a => a

theorem move_injective : Function.Injective L.move := by
  have hrotate := rotate_injective L.slot_le L.start_le
  have hlt (i : Nat) : rotate L.slot L.start L.stop i < L.stop ↔ i < L.stop := rotate_lt L.start_le
  rintro ⟨b, i⟩ ⟨b', j⟩ h
  have hi := hlt i
  have hj := hlt j
  cases b <;> cases b' <;> simp only [move] at h <;> (try split_ifs at h) <;>
    simp only [Prod.mk.injEq, true_and, reduceCtorEq, false_and] at h ⊢
  all_goals first | omega | exact hrotate h

def renumber : Renaming :=
  ⟨L.move, rotate L.handle L.startHandle L.stopHandle, L.move_injective,
    rotate_injective L.handle_le L.startHandle_le⟩

/-! ## The regions -/

theorem move_eq {b : Bank} {i j : Nat}
    (hcomputed : b = .computed → i < L.stop ∧ rotate L.slot L.start L.stop i = j ∨
      L.stop < i ∧ i = j + 1)
    (hbindings : b = .bindings → i < L.bindings ∧ i = j ∨ L.bindings ≤ i ∧ j = i + 1)
    (hothers : b ≠ .computed → b ≠ .bindings → i = j) : L.move (b, i) = (b, j) := by
  cases b with
  | computed =>
    rw [move]
    rcases hcomputed rfl with ⟨hi, hj⟩ | ⟨hi, rfl⟩
    · rw [if_pos hi, hj]
    · rw [if_neg (by omega), if_neg (by omega), Nat.add_sub_cancel]
  | bindings =>
    rw [move]
    rcases hbindings rfl with ⟨hi, rfl⟩ | ⟨hi, rfl⟩
    · rw [if_pos hi]
    · rw [if_neg (by omega)]
  | constants => exact congrArg (Prod.mk Bank.constants) (hothers (by decide) (by decide))
  | states => exact congrArg (Prod.mk Bank.states) (hothers (by decide) (by decide))

/-- What the value of the series takes, and the slot of the series itself. -/
def slots (i : Nat) : Prop := L.start ≤ i ∧ i ≤ L.stop

def calls (i : Nat) : Prop := L.startHandle ≤ i ∧ i < L.stopHandle

/-- What is taken before the statement stays where it is. -/
def earlier : Region L.renumber .all where
  slots a := (a.1 = .computed → a.2 < L.slot) ∧ (a.1 = .bindings → a.2 < L.bindings)
  calls i := i < L.handle
  shift _ := 0
  turn := 0
  slot hi hj := by
    obtain rfl := Int.ofNat.inj (hj.trans (Int.add_zero _))
    have := L.slot_le
    have := L.start_le
    exact L.move_eq (fun h => .inl ⟨by have := hi.1 h; omega, rotate_below (hi.1 h) L.slot_le⟩)
      (fun h => .inl ⟨hi.2 h, rfl⟩) fun _ _ => rfl
  handle hi hj := by
    obtain rfl := Int.ofNat.inj (hj.trans (Int.add_zero _))
    exact rotate_below hi L.handle_le
  writes _ := trivial
  called _ := trivial
  reads _ := trivial

/-- The distance of the computed slots, and that of the bindings. -/
def distance (computed bindings : Int) : Bank → Int
  | .computed => computed
  | .bindings => bindings
  | _ => 0

/-- What the value of the series takes is moved to the front. -/
def argument : Region L.renumber (.of L.slots L.calls) where
  slots a := a.1 = .computed ∧ L.start ≤ a.2 ∧ a.2 < L.stop
  calls := L.calls
  shift := distance (L.slot - L.start) 0
  turn := L.handle - L.startHandle
  slot {b i j} hi hj := by
    obtain ⟨rfl, hi, hi'⟩ := hi
    have := L.slot_le
    simp only [distance] at hj
    refine L.move_eq (fun _ => .inl ⟨hi', ?_⟩) (by rintro ⟨⟩) fun h => (h rfl).elim
    rw [rotate_back hi hi']
    omega
  handle {i j} hi hj := by
    have := L.handle_le
    refine (rotate_back hi.1 hi.2).trans ?_
    omega
  writes h := ⟨h.1, h.2.1, Nat.le_of_lt h.2.2⟩
  called h := h
  reads hb h := (hb h).elim

/-- The hoisting of the series. -/
def hoisting (n n' : Node) (h : n.Renamed L.renumber (.of L.slots L.calls) n') :
    Hoisting L.renumber where
  slots := L.slots
  calls := L.calls
  id := L.stop
  value := n
  value' := n'
  target := (.bindings, L.bindings)
  slot := by simp [renumber, move]
  own := ⟨L.start_le, Nat.le_refl _⟩
  renamed := h

variable {n n' : Node} (h : n.Renamed L.renumber (.of L.slots L.calls) n')

/-- What the statement takes before the series comes after it. -/
def before : Region L.renumber (L.hoisting n n' h).others where
  slots a := a.1 = .computed ∧ L.slot ≤ a.2 ∧ a.2 < L.start
  calls i := L.handle ≤ i ∧ i < L.startHandle
  shift := distance (L.stop - L.start) 1
  turn := L.stopHandle - L.startHandle
  slot {b i j} hi hj := by
    obtain ⟨rfl, hi, hi'⟩ := hi
    have := L.start_le
    simp only [distance] at hj
    refine L.move_eq (fun _ => .inl ⟨by omega, ?_⟩) (by rintro ⟨⟩) fun h => (h rfl).elim
    rw [rotate_front hi hi']
    omega
  handle {i j} hi hj := by
    have := L.startHandle_le
    refine (rotate_front hi.1 hi.2).trans ?_
    omega
  writes hi := ⟨hi.1, fun hs => Nat.not_lt.2 hs.1 hi.2.2⟩
  called hi hs := Nat.not_lt.2 hs.1 hi.2
  reads hb hc := (hb hc).elim

/-- Later on there is a computed slot less, and a binding more. -/
def after : Region L.renumber .all where
  slots a := (a.1 = .computed → L.stop < a.2) ∧ (a.1 = .bindings → L.bindings ≤ a.2)
  calls i := L.stopHandle ≤ i
  shift := distance (-1) 1
  turn := 0
  slot {b i j} hi hj := by
    refine L.move_eq (fun hb => .inr ⟨hi.1 hb, ?_⟩) (fun hb => .inr ⟨hi.2 hb, ?_⟩) fun hc hb => ?_
    · subst hb
      simp only [distance] at hj
      omega
    · subst hb
      simp only [distance] at hj
      omega
    · cases b <;> first | exact (hc rfl).elim | exact (hb rfl).elim | simpa [distance] using hj.symm
  handle hi hj := by
    obtain rfl := Int.ofNat.inj (hj.trans (Int.add_zero _))
    exact rotate_above hi L.startHandle_le
  writes _ := trivial
  called _ := trivial
  reads _ := trivial

def setting : Setting where
  ρ := L.renumber
  H := L.hoisting n n' h
  before := L.before h
  after := L.after

end Layout

namespace Resolve

variable {v : String} {e : Expr}

/-! ## What comes before the statement -/

theorem spares_statement {st st' : Statement} (h : st.Retold v st') : Spares v (statement st') := by
  cases h with
  | declare kind hn h p q =>
    have := spares_declaration hn kind
    unfold statement
    infer_instance
  | reassign hn h p q => unfold statement; infer_instance
  | unpack hns h p q =>
    have := spares_targets hns
    unfold statement
    infer_instance
  | expr h => unfold statement; infer_instance
  | result h p q => cases h <;> unfold statement <;> infer_instance

/-- The name `v` is not declared. -/
theorem Resolved.fresh {ss ss' : List Statement} (hss : List.Forall₂ (Statement.Retold v) ss ss')
    {s t : Scope} {os : List Op} {r : Option Result} (h : Resolved s ss' os r t) :
    t.find? v = s.find? v := by
  induction h generalizing ss with
  | nil => rfl
  | op ho _ ih =>
    cases hss with
    | cons hst hss => exact (ih hss).trans ((spares_statement hst).find? _ _ _ ho)
  | result hr =>
    cases hss with
    | cons hst hss => exact (spares_statement hst).find? _ _ _ hr

theorem Resolved.append {ss₁ ss₂ : List Statement} {s s₁ t : Scope} {os₁ os₂ : List Op}
    {r : Option Result} (h₁ : Resolved s ss₁ os₁ none s₁) (h₂ : Resolved s₁ ss₂ os₂ r t) :
    Resolved s (ss₁ ++ ss₂) (os₁ ++ os₂) r t := by
  generalize hnone : none = r₁ at h₁
  induction h₁ with
  | nil => exact h₂
  | op ho _ ih => exact .op ho (ih h₂ hnone)
  | result hr => cases hnone

/-! ## The new statement -/

theorem yields_plotCall {c : Call} (hname : c.name = "plot" ∨ c.name = "plotchar") (s : Scope) :
    Yields (call c) s fun _ _ => False := by
  have hta : ¬c.name.startsWith "ta." = true := by
    rcases hname with h | h <;> rw [h] <;> decide +kernel
  have hmath : MathFn.ofName? c.name = none := by rcases hname with h | h <;> rw [h] <;> decide
  have hna : c.name ≠ "na" := by rcases hname with h | h <;> rw [h] <;> decide
  have hnz : c.name ≠ "nz" := by rcases hname with h | h <;> rw [h] <;> decide
  rw [call, if_neg hta, hmath]
  dsimp only
  rw [if_neg hna, if_neg hnz]
  exact .bind yields_checkFunction

/-- What has a value is no plot. -/
theorem boundPlot?_value {e' : Expr} (he : e.Retold v e') {n : Node} {a m : Scope}
    (hm : expr e a = .ok (n, m)) : boundPlot? .binding e' = none := by
  cases he with
  | call name has p q =>
    rw [expr] at hm
    have hplot : ¬(name = "plot" ∨ name = "plotchar") := fun h => yields_plotCall h a _ _ hm
    rw [not_or] at hplot
    unfold boundPlot?
    dsimp only
    rw [if_neg hplot.1, if_neg hplot.2]
  | _ => rfl

/-- The series of an expression comes after its value. -/
theorem source_computed (he : ∀ n p, e ≠ .name n p) {a b : Scope} {id : Nat} {n : Node}
    (h : source e a = .ok (.computed id n, b)) :
    ∃ m, expr e a = .ok (n, m) ∧ id = m.computed ∧ b = m.take .computed := by
  have hy : Yields (source e) a fun src b => ∃ n m, src = .computed m.computed n ∧
      expr e a = .ok (n, m) ∧ b = m.take .computed := by
    rw [source_of_not_name he]
    exact .bind fun n m hm => .bind (yields_slot (.pure ⟨n, m, rfl, hm, rfl⟩))
  obtain ⟨n', m, hsrc, hm, hb⟩ := hy _ _ h
  obtain ⟨rfl, rfl⟩ : id = m.computed ∧ n = n' := by simpa using hsrc
  exact ⟨m, hm, rfl, hb⟩

/-- The layout of a series whose value is resolved from the scope `a` to the scope `m`, in a
statement that is resolved from the scope `s`. -/
def layout {s a m : Scope} (hs : s.Grew a) (ha : a.Grew m) : Layout :=
  ⟨s.bindings, s.computed, a.computed, m.computed, s.handles, a.handles, m.handles,
    hs.taken .computed, ha.taken .computed, hs.handles, ha.handles⟩

section

variable {s s' a m : Scope} (hs : s.Grew a) (ha : a.Grew m)

theorem shifted_empty (L : Layout) : L.earlier.Shifted v .empty .empty :=
  ⟨fun _ _ => .none, fun b => by cases b <;> rfl, rfl⟩

theorem covers_earlier : (layout hs ha).earlier.Covers .empty s where
  slots b i _ hi := by
    constructor
    · rintro ⟨⟩
      exact hi
    · rintro ⟨⟩
      exact hi
  calls i _ hi := hi

theorem covers_argument : (layout hs ha).argument.Covers a m where
  slots b i hi hi' := by
    by_cases hb : b = .computed
    · subst hb
      exact ⟨rfl, hi, hi'⟩
    · rw [ha.others b hb] at hi'
      omega
  calls i hi hi' := ⟨hi, hi'⟩

/-- The value of the series is resolved at once. -/
theorem shifted_argument (h : (layout hs ha).earlier.Shifted v s s') :
    (layout hs ha).argument.Shifted v a s' where
  names n hn := hs.find? n ▸ h.names n hn
  taken b := by
    have hb := h.taken b
    by_cases hc : b = .computed
    · subst hc
      simp only [Layout.earlier, Layout.argument, Layout.distance, layout, Scope.taken] at hb ⊢
      omega
    · rw [hs.others b hc]
      cases b <;> first | exact (hc rfl).elim | exact hb
  handles := by
    have := h.handles
    simp only [Layout.earlier, Layout.argument, layout] at this ⊢
    omega

variable {n n' : Node}
    (hn : n.Renamed (layout hs ha).renumber (.of (layout hs ha).slots (layout hs ha).calls) n')

theorem covers_before : ((layout hs ha).before hn).Covers s a where
  slots b i hi hi' := by
    by_cases hb : b = .computed
    · subst hb
      exact ⟨rfl, hi, hi'⟩
    · rw [hs.others b hb] at hi'
      omega
  calls i hi hi' := ⟨hi, hi'⟩

theorem covers_after (t : Scope) : (layout hs ha).after.Covers (m.take .computed) t where
  slots b i hi _ := by
    constructor
    · rintro ⟨⟩
      exact hi
    · rintro ⟨⟩
      rw [Scope.taken_take, if_neg (by decide), ha.others _ (by decide),
        hs.others _ (by decide)] at hi
      exact hi
  calls i hi _ := hi

theorem setting_fits (h : source e a = .ok (.computed m.computed n, m.take .computed)) :
    ((layout hs ha).setting hn).Fits e a (m.take .computed) where
  source := h
  shift b := by
    have hb := ha.others b
    cases b <;> simp [Layout.setting, Layout.after, Layout.before, Layout.distance, layout,
      Scope.taken, Scope.take] at hb ⊢ <;> omega
  turn := by
    simp [Layout.setting, Layout.after, Layout.before, layout, Scope.take]

theorem shifted_named {m' : Scope} (h : (layout hs ha).argument.Shifted v m m') (b : Binding) :
    ((layout hs ha).before hn).Shifted v s { m'.take .bindings with
      names := (m'.take .bindings).names ++ [(v, b)] } where
  names x hx := by
    have hfind := h.names x hx
    rw [ha.find?, hs.find?] at hfind
    simpa [Scope.find?, List.find?_append, Ne.symm hx] using hfind
  taken b' := by
    have hm := h.taken b'
    have hs := hs.others b'
    have ha := ha.others b'
    cases b' <;> simp [Layout.argument, Layout.before, Layout.distance, layout,
      Scope.taken, Scope.take] at hm hs ha ⊢ <;> omega
  handles := by
    have := h.handles
    simp only [Layout.argument, Layout.before, layout, Scope.handles_take] at this ⊢
    omega

/-- The new statement gives the name `v` the next binding. -/
theorem statement_named {e' : Expr} (he : e.Retold v e') (hm : expr e a = .ok (n, m))
    (h : (layout hs ha).earlier.Shifted v s s') (hfresh : s'.find? v = none) (p : Nat) :
    ∃ n' hn t', statement (.declare .binding v e' p) s' =
        .ok (.op ((layout hs ha).hoisting n n' hn).op, t') ∧
      ((layout hs ha).before hn).Shifted v s t' ∧
        t'.find? v = some (.series .bindings (layout hs ha).bindings) := by
  obtain ⟨n', m', hm', hn, hshifted⟩ :=
    mirrors_expr e he a s' (shifted_argument hs ha h) n m hm (covers_argument hs ha)
  have hkept : s'.Grew m' := (inferInstance : Keeps (expr e')).grew s' n' m' hm'
  have hbindings : m'.taken .bindings = s.taken .bindings := by
    rw [hkept.others _ (by decide)]
    exact Int.ofNat.inj ((h.taken .bindings).trans (Int.add_zero _))
  have hnone : (m'.take .bindings).find? v = none := by
    rw [Scope.find?, Scope.names_take]
    exact (hkept.find? v).trans hfresh
  let t' : Scope :=
    { m'.take .bindings with
      names := (m'.take .bindings).names ++ [(v, .series .bindings (m'.taken .bindings))] }
  refine ⟨n', hn, t', ?_, ?_, ?_⟩
  · have hdeclare : declare v p (.series .bindings (m'.taken .bindings)) (m'.take .bindings) =
        .ok ((), t') := by
      unfold declare
      rw [bind_ok (m := get) rfl, hnone]
      rfl
    have hdeclaration : declaration .binding v e' p s' =
        .ok (.set .bindings (m'.taken .bindings) n', t') := by
      unfold declaration
      rw [boundPlot?_value he hm]
      dsimp only
      rw [bind_ok hm', bind_ok (m := slot _) rfl]
      exact bind_ok hdeclare
    refine (bind_ok hdeclaration).trans ?_
    rw [hbindings]
    rfl
  · exact shifted_named hs ha hn hshifted _
  · exact (Scope.find?_declared hnone _).trans
      (congrArg (fun i => some (Binding.series .bindings i)) hbindings)

end

/-! ## Programs -/

theorem Resolved.compiled {ss : List Statement} {os : List Op} {r : Option Result} {t : Scope}
    (h : Resolved .empty ss os r t) : ∃ sum, compileStatements ss = .ok ⟨os, r, sum⟩ :=
  ⟨_, compileStatements_ok_iff.2 ⟨t, h, rfl⟩⟩

/-- The two scripts are resolved alike, but for the series. -/
theorem Resolved.hoisted {past : Bool} {pre pre' post post' : List Statement} {st st' : Statement}
    {e' : Expr} (hbare : ∀ n p, e ≠ .name n p)
    (hpre : List.Forall₂ (Statement.Retold v) pre pre') (he : e.Retold v e')
    (hst : st.Naming v e past st') (hpost : List.Forall₂ (Statement.Retold v) post post') (p : Nat)
    {os : List Op} {r : Option Result} {t : Scope}
    (h : Resolved .empty (pre ++ st :: post) os r t) :
    ∃ os' r' t' ρ, ∃ H : Hoisting ρ,
      Resolved .empty (pre' ++ .declare .binding v e' p :: st' :: post') os' r' t' ∧
      (∃ a b, source e a = .ok (H.source, b)) ∧
      ∀ sum sum', Program.Hoisted H past ⟨os, r, sum⟩ ⟨os', r', sum'⟩ := by
  obtain ⟨os₁, os₂, s, rfl, -, hpreOps, hrest⟩ := h.split (List.cons_ne_nil st post)
  -- the scopes before and after the statement, and around the value of the series
  obtain ⟨c, s₁, hc⟩ : ∃ c s₁, statement st s = .ok (c, s₁) := by
    cases hrest with
    | op ho _ => exact ⟨_, _, ho⟩
    | result hr => exact ⟨_, _, hr⟩
  obtain ⟨a, b, id, n, hs, hsource, hle, hpass⟩ := passes_statement hbare hst s c s₁ hc
  obtain ⟨m, hm, rfl, rfl⟩ := source_computed hbare hsource
  have ha : a.Grew m := (inferInstance : Keeps (expr e)).grew a n m hm
  -- what comes before, and the new statement
  obtain ⟨os₁', r', s', hpreOps', hops, hnone, hshifted⟩ :=
    hpreOps.mirror hpre (shifted_empty (layout hs ha)) (covers_earlier hs ha)
  cases hnone
  have hfresh : s'.find? v = none := hpreOps'.fresh hpre
  obtain ⟨n', hn, t₁, hnamed, hbefore, hv⟩ := statement_named hs ha he hm hshifted hfresh p
  -- the statement, and what comes after
  obtain ⟨c', s₁', hc', hrel, hafter⟩ := hpass ((layout hs ha).setting hn)
    (setting_fits hs ha hn hsource) (covers_before hs ha hn)
    (covers_after hs ha s₁) t₁ hbefore hv
  cases hrest with
  | @op _ _ _ _ _ o _ _ ho hpostOps =>
    obtain ⟨rfl, rfl⟩ : .op o = c ∧ _ = s₁ := by simpa using ho.symm.trans hc
    obtain ⟨os₃', r', t', hpostOps', hops', hresult, -⟩ :=
      hpostOps.mirror hpost hafter ((covers_after hs ha t).right hle)
    cases hrel with
    | op hop =>
      exact ⟨_, r', t', _, (layout hs ha).hoisting n n' hn,
        hpreOps'.append (.op hnamed (.op hc' hpostOps')), ⟨a, _, hsource⟩,
        fun sum sum' => .op sum sum' hops hop hops' hresult⟩
  | @result _ _ _ r hr =>
    obtain ⟨rfl, rfl⟩ : .result r = c ∧ t = s₁ := by simpa using hr.symm.trans hc
    cases hpost
    cases hrel with
    | result hresult =>
      rw [List.append_nil]
      exact ⟨_, _, _, _, (layout hs ha).hoisting n n' hn,
        hpreOps'.append (.op hnamed (.result hc')), ⟨a, _, hsource⟩,
        fun sum sum' => .result sum sum' hops hresult⟩

end Resolve

/-- **Naming a series argument** changes nothing. -/
theorem named_argument {α : Type} [Arith α] {source source' : String} {ss ss' : List Statement}
    {v : String} {e : Expr} {past : Bool} {p : Program} (hss : parse source = .ok ss)
    (hss' : parse source' = .ok ss') (h : NamedBefore v e past ss ss') (hp : compile source = .ok p) :
    ∃ p' ρ, ∃ H : Hoisting ρ, compile source' = .ok p' ∧ Program.Hoisted H past p p' ∧
      (∃ a b, Resolve.source e a = .ok (H.source, b)) ∧
      ∀ (market : Market α) (precision : Precision) (useCache : Bool) (count : Option Nat),
        let c : Context α := .fresh market precision useCache
        let run := Runner.runProgram p c count
        let run' := Runner.runProgram p' c count
        (past = true → ∀ d ∈ Runner.entered p (Runner.window market count) c,
          ∀ s, .skipped s ∈ p.trace d → .set .computed H.id ∉ s.effects) →
        (run.1 = .ok () ↔ run'.1 = .ok ()) ∧ (run.1 = .ok () →
          run'.2.results = run.2.results ∧ run'.2.outputs = run.2.outputs ∧
            run'.2.maxPeriod = run.2.maxPeriod) := by
  obtain ⟨hbare, pre, st, post, pre', e', q, st', post', rfl, rfl, hpre, he, hst, hpost⟩ := h
  obtain ⟨ss, hss₁, hp⟩ := compile_ok hp
  obtain rfl := Except.ok.inj (hss₁.symm.trans hss)
  obtain ⟨t, hresolved, -⟩ := compileStatements_ok_iff.1 hp
  obtain ⟨os', r', t', ρ, H, hresolved', hsource, hhoisted⟩ :=
    hresolved.hoisted hbare hpre he hst hpost q
  obtain ⟨sum, hp'⟩ := hresolved'.compiled
  let p' : Program := ⟨os', r', sum⟩
  have hcompile : compile source' = .ok p' := by
    unfold compile
    rw [hss']
    dsimp only
    rw [hp']
  refine ⟨p', ρ, H, hcompile, hhoisted p.summary sum, hsource, ?_⟩
  intro market precision useCache count c run run' hreached
  refine (hhoisted p.summary sum).runProgram market precision useCache count ?_
  rintro d hd ⟨hpast, s, hskipped, hset⟩
  exact hreached hpast d hd s hskipped hset

/-- The moving average of a difference, one bar ago. -/
def laggedSource : String := "return ta.sma(close - open, 2)[1]"

/-- The same with a name for the difference. -/
def spreadSource : String := "spread = close - open\nreturn ta.sma(spread, 2)[1]"

def laggedStatements : List Statement :=
  [.result (.single (.history (.call ⟨"ta.sma",
      [⟨none, .binary .sub (.name "close" 14) (.name "open" 22), 14⟩,
        ⟨none, .number (.ofNat 2), 28⟩], 7⟩)
    (.number (.ofNat 1)) 30)) 0]

def spreadStatements : List Statement :=
  [.declare .binding "spread" (.binary .sub (.name "close" 9) (.name "open" 17)) 0,
    .result (.single (.history (.call ⟨"ta.sma",
        [⟨none, .name "spread" 36, 36⟩, ⟨none, .number (.ofNat 2), 44⟩], 29⟩)
      (.number (.ofNat 1)) 46)) 22]

def spreadSeries : Source :=
  .computed 0 (.binary .sub (.read (.price .close) none) (.read (.price .opening) none))

def laggedSeries : Source :=
  .computed 1 (.study ⟨.sma, [.series spreadSeries, .number (.number (.ofNat 2))], some 0⟩)

def laggedProgram : Program :=
  ⟨[], some (.single (.read laggedSeries (some (.number (.ofNat 1))))), ⟨1, 0, 2, 1⟩⟩

theorem parse_laggedSource : parse laggedSource = .ok laggedStatements := by
  with_unfolding_all rfl

theorem parse_spreadSource : parse spreadSource = .ok spreadStatements := by
  with_unfolding_all rfl

theorem compile_laggedSource : compile laggedSource = .ok laggedProgram := by
  with_unfolding_all rfl

theorem spreadStatements_named :
    NamedBefore "spread" (.binary .sub (.name "close" 14) (.name "open" 22)) true laggedStatements
      spreadStatements where
  not_bare := by rintro _ _ ⟨⟩
  split := by
    have hspread : Expr.Retold "spread" (.binary .sub (.name "close" 14) (.name "open" 22))
        (.binary .sub (.name "close" 9) (.name "open" 17)) :=
      .binary .sub (.name (by decide) 14 9) (.name (by decide) 22 17)
    have hst : Study.ofName? "ta.sma" = some .sma := rfl
    have hparam : Study.sma.param? [] none = some ⟨"source", .series⟩ := rfl
    have hcall := Expr.Naming.here (v := "spread")
      (e := .binary .sub (.name "close" 14) (.name "open" 22)) hst hparam (.inl rfl) .nil
      (.cons none (.number (.ofNat 2)) 28 44 .nil) 14 36 7 29 36
    exact ⟨[], _, [], [], _, 0, _, [], rfl, rfl, .nil, hspread,
      .result (.single (.target (.number _) hcall 30 46)) 0 22, .nil⟩

theorem evalOffset_one (c : Context Float) :
    Node.evalOffset (some (.number (.ofNat 1))) c = .ok (some 1) c := by
  have hnumber : Arith.isNaN ((Literal.ofNat 1).value : Float) = false := rfl
  have hpos : ¬((Literal.ofNat 1).value : Float) < 0 := by decide
  have hcount : Arith.toCount ((Literal.ofNat 1).value : Float) = 1 := rfl
  have hoffset : historyOffset c.bar ((Literal.ofNat 1).value : Float) = .ok (some 1) := by
    unfold historyOffset
    rw [if_neg (by simp [hnumber])]
    exact (if_neg hpos).trans (by rw [hcount])
  rw [Node.evalOffset, Node.eval, pure_bind]
  refine (EStateM.bind.eq_1 _ _ _).trans ?_
  dsimp only [get, getThe, MonadStateOf.get, EStateM.get]
  rw [hoffset]
  rfl

/-- The offset is available at every bar. -/
theorem laggedProgram_reached (c : Context Float) (s : Source) :
    .skipped s ∉ laggedProgram.trace c := by
  have htrace : laggedProgram.trace c =
      onSuccess (Node.evalOffset (some (.number (.ofNat 1)))) c fun k ctx =>
        k.elim [.skipped laggedSeries] fun _ => laggedSeries.trace ctx ++
          onSuccess laggedSeries.prepare ctx fun _ => sights [laggedSeries] := rfl
  obtain ⟨x, y, v, w, hseries⟩ : ∃ x y v w, laggedSeries.trace c ++
      onSuccess laggedSeries.prepare c (fun _ => sights [laggedSeries]) =
        [.saw (.price .close) (c.snapshot.price .close),
          .saw (.price .opening) (c.snapshot.price .opening), .wrote .computed 0 x,
          .saw spreadSeries v, .wrote .computed 1 y, .saw laggedSeries w] := ⟨_, _, _, _, rfl⟩
  rw [htrace, onSuccess_ok (evalOffset_one c), Option.elim, hseries]
  simp

theorem named_argument_lagged :
    parse laggedSource = .ok laggedStatements ∧ parse spreadSource = .ok spreadStatements ∧
      NamedBefore "spread" (.binary .sub (.name "close" 14) (.name "open" 22)) true laggedStatements
        spreadStatements ∧ compile laggedSource = .ok laggedProgram ∧
      ∃ p', compile spreadSource = .ok p' ∧
        ∀ (market : Market Float) (precision : Precision) (useCache : Bool) (count : Option Nat),
          let c : Context Float := .fresh market precision useCache
          let run := Runner.runProgram laggedProgram c count
          let run' := Runner.runProgram p' c count
          (run.1 = .ok () ↔ run'.1 = .ok ()) ∧ (run.1 = .ok () →
            run'.2.results = run.2.results ∧ run'.2.outputs = run.2.outputs ∧
              run'.2.maxPeriod = run.2.maxPeriod) := by
  obtain ⟨p', _, H, hcompile, -, -, hruns⟩ := named_argument (α := Float) parse_laggedSource
    parse_spreadSource spreadStatements_named compile_laggedSource
  refine ⟨parse_laggedSource, parse_spreadSource, spreadStatements_named, compile_laggedSource, p',
    hcompile, fun market precision useCache count => hruns market precision useCache count ?_⟩
  exact fun _ d _ s hs => (laggedProgram_reached d s hs).elim

end BarScript
