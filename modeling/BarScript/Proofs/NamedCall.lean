import BarScript.Proofs.Passing

/-!
# Calls with a named argument

An expression in which the argument of a call is given a name resolves to a node in which the series
of the argument is hoisted (`passes_expr`). The argument is followed from its place in the call to the
parameter that it is for.
-/

namespace BarScript

/-! ## Places -/

/-- Around one pair, the lists are related one by one. -/
theorem Around.oneAt {β γ : Type} {R : β → γ → Prop} {i : Nat} {x : β} {y : γ} {xs : List β}
    {ys : List γ} (h : Around R i x y xs ys) : OneAt R (fun a b => a = x ∧ b = y) R xs ys := by
  obtain ⟨pre, post, pre', post', rfl, rfl, -, hpre, hpost⟩ := h
  induction hpre with
  | nil => exact .head ⟨rfl, rfl⟩ hpost
  | cons hx _ ih => exact .tail hx ih

theorem Around.zip {β γ δ : Type} {R : β → γ → Prop} {i : Nat} {x : β} {y : γ} {xs : List β}
    {ys : List γ} (h : Around R i x y xs ys) {ps : List δ} {p : δ} (hp : ps[i]? = some p) :
    OneAt (fun a b => b.1 = a.1 ∧ R a.2 b.2) (fun a b => a = (p, x) ∧ b = (p, y))
      (fun a b => b.1 = a.1 ∧ R a.2 b.2) (ps.zip xs) (ps.zip ys) := by
  obtain ⟨pre, post, pre', post', rfl, rfl, rfl, hpre, hpost⟩ := h
  induction hpre generalizing ps with
  | nil =>
    cases ps with
    | nil => cases hp
    | cons q ps =>
      cases hp
      exact .head ⟨rfl, rfl⟩ (Resolve.forall₂_zip hpost ps)
  | cons hx _ ih =>
    cases ps with
    | nil => cases hp
    | cons q ps => exact .tail ⟨rfl, hx⟩ (ih hp)

/-- The parameter that an argument is for is the one at its place. -/
theorem Study.param?_of_place {ε : Type} {st : Study} {c : CallOf ε} {before : List (Arg Expr)}
    {next i : Nat} {a : Arg ε} (hnext : next = before.countP (·.name.isNone))
    (h : c.place (st.params.map (·.name)) false next a = .ok (.slot i)) :
    st.param? before a.name = st.params[i]? := by
  unfold CallOf.place at h
  unfold Study.param?
  cases hname : a.name with
  | some n =>
    rw [hname] at h
    dsimp only at h ⊢
    cases hi : (st.params.map (·.name)).idxOf? n with
    | none => rw [hi] at h; cases h
    | some j =>
      rw [hi] at h
      cases h
      rw [List.idxOf?, List.findIdx?_map] at hi
      rw [List.find?_eq_bind_findIdx?_getElem?]
      exact congrArg (·.bind fun i => st.params[i]?) hi
  | none =>
    rw [hname] at h
    dsimp only at h ⊢
    split at h
    · cases h
      rw [hnext]
    · cases h

/-! ## One hoisted element -/

section

variable {ρ : Renaming} {H : Hoisting ρ} {past : Bool}

theorem Bound.allHoisted_of_oneAt {bs bs' : List Bound}
    (h : OneAt (Bound.Renamed ρ H.others) (Bound.Hoisted H past) (Bound.Renamed ρ .all) bs bs') :
    Bound.AllHoisted H past bs bs' := by
  induction h with
  | head h hbs => exact .head h (Bound.allRenamed_iff.2 hbs)
  | tail hb _ ih => exact .tail hb ih

theorem Node.allHoisted_of_oneAt {ns ns' : List Node}
    (h : OneAt (Node.Renamed ρ H.others) (Node.Hoisted H past) (Node.Renamed ρ .all) ns ns') :
    Node.AllHoisted H past ns ns' := by
  induction h with
  | head h hns => exact .head h (Node.allRenamed_iff.2 hns)
  | tail hn _ ih => exact .tail hn ih

theorem StudyCallOf.Hoisted.node {k k' : StudyCall} (h : k.Hoisted H past k') :
    Node.Hoisted H past (.study k) (.study k') := by
  obtain ⟨st, as, handle⟩ := k
  obtain ⟨st', as', handle'⟩ := k'
  obtain rfl : st' = st := h.study
  obtain rfl : handle' = handle.map ρ.handle := h.handle
  exact .study st' handle h.args

/-- The third argument is of the same kind. -/
theorem Bound.AllHoisted.third {bs bs' : List Bound} (h : Bound.AllHoisted H past bs bs') :
    Option.Rel (fun b b' => b.Hoisted H past b' ∨ b.Renamed ρ H.others b' ∨ b.Renamed ρ .all b')
      bs[2]? bs'[2]? := by
  have all {bs bs' : List Bound} (h : Bound.AllRenamed ρ .all bs bs') (i : Nat) :
      Option.Rel (fun b b' => b.Hoisted H past b' ∨ b.Renamed ρ H.others b' ∨ b.Renamed ρ .all b')
        bs[i]? bs'[i]? := by
    have hi := rel_getElem? (Bound.allRenamed_iff.1 h) i
    generalize bs[i]? = o at hi
    generalize bs'[i]? = o' at hi
    cases hi with
    | none => exact .none
    | some hb => exact .some (.inr (.inr hb))
  cases h with
  | head h hbs => exact all hbs 1
  | tail hb h =>
    cases h with
    | head h hbs => exact all hbs 0
    | tail hb h =>
      cases h with
      | head h _ => exact .some (.inl h)
      | tail hb _ => exact .some (.inr (.inl hb))

theorem StudyCallOf.Hoisted.arity {k k' : StudyCall} (h : k.Hoisted H past k') :
    k'.arity = k.arity := by
  have hthird := h.args.third
  unfold StudyCallOf.arity
  rw [h.study]
  generalize k.args[2]? = third at hthird
  generalize k'.args[2]? = third' at hthird
  cases hthird with
  | none => rfl
  | some hb =>
    rcases hb with hb | hb | hb <;> cases hb <;> cases k.study <;> rfl

end

namespace Resolve

variable {v : String} {e : Expr} {past : Bool}

/-! ## Arguments -/

/-- The series is in the expressions, and neither of them is a bare name. -/
structure Hands (v : String) (e : Expr) (past : Bool) (x x' : Expr) : Prop where
  not_name : ∀ n p, x ≠ .name n p
  not_name' : ∀ n p, x' ≠ .name n p
  passes : Passes v e (fun S n n' => n.Hoisted S.H past n') (expr x) (expr x')

/-- The series is in an argument, or it is the argument of a parameter that takes a series. -/
inductive Handed (v : String) (e : Expr) (past : Bool) (p : Param) : Expr → Expr → Prop
  | within {x x' : Expr} (h : Hands v e past x x') : Handed v e past p x x'
  | whole (hpast : past = false) (hp : p.TakesSeries) (he : ∀ n q, e ≠ .name n q) (r : Nat) :
      Handed v e past p e (.name v r)

theorem source_of_not_name {x : Expr} (hx : ∀ n p, x ≠ .name n p) :
    source x = (do computed (← expr x)) := by
  have hnone : ∀ s, namedSource? s x = none := by
    intro s
    unfold namedSource?
    split
    · rename_i n p
      exact absurd rfl (hx n p)
    · rfl
  rw [source]
  simp only [hnone]
  exact funext fun s => bind_ok (m := get) rfl

/-- The series is in the value of a computed series. -/
theorem Hands.source {x x' : Expr} (h : Hands v e past x x') :
    Passes v e (fun S s s' => Bound.Hoisted S.H past (.series s) (.series s')) (source x)
      (source x') := by
  rw [source_of_not_name h.not_name, source_of_not_name h.not_name']
  exact h.passes.first fun S n n' hn => (Mirrors.slot .computed).map fun i i' hi =>
    .series hn hi.1

theorem passes_argument {c c' : Call} {p : Param} {x : { e : Expr // ∃ a ∈ c.args, a.value = e }}
    {x' : { e : Expr // ∃ a ∈ c'.args, a.value = e }} (h : Handed v e past p x.1 x'.1) :
    Passes v e (fun S b b' => b.Hoisted S.H past b') (argument c p (some x))
      (argument c' p (some x')) := by
  obtain ⟨x, hx⟩ := x
  obtain ⟨x', hx'⟩ := x'
  obtain ⟨name, kind⟩ := p
  cases h with
  | within h =>
    have series : Passes v e (fun S b b' => Bound.Hoisted S.H past b b')
        (do return .series (← Resolve.source x)) (do return .series (← Resolve.source x')) :=
      h.source.map fun _ _ _ hs => hs
    have number := h.passes.map fun S n n' hn => Bound.Hoisted.number hn
    rw [argument.eq_def, argument.eq_def]
    cases kind with
    | series => exact series
    | optionalSeries => exact series
    | number => exact number
    | optionalNumber => exact number
    | default l => exact number
  | whole hpast hp he r =>
    subst hpast
    have series : Passes v x (fun S b b' => Bound.Hoisted S.H false b b')
        (do return .series (← Resolve.source x)) (do return .series (← Resolve.source (.name v r))) :=
      (Passes.here he r).map fun _ _ _ hs => hs
    rw [argument.eq_def, argument.eq_def]
    rcases hp with rfl | rfl
    · exact series
    · exact series

/-! ## Calls -/

/-- One argument of the calls is related in a way of its own, the others are told again. -/
structure CallsAt (v : String) (i : Nat) (a a' : Arg Expr) (c c' : Call) : Prop where
  name : c'.name = c.name
  args : Around (Arg.Rel (Expr.Retold v)) i a a' c.args c'.args
  label : a'.name = a.name

theorem free_bind_holed {ε ε' : Type} {R : ε → ε' → Prop} {c : CallOf ε} {c' : CallOf ε'} {i : Nat}
    {a : Arg ε} {a' : Arg ε'} (hargs : Around (Arg.Rel R) i a a' c.args c'.args)
    (hname : a'.name = a.name) (params : List String) (allowExtra : Bool) :
    Free (fun b b' => ∃ place,
        c.place params allowExtra ((c.args.take i).countP (·.name.isNone)) a = .ok place ∧
          BoundArgs.Holed R a.value a'.value place b b')
      (Resolve.bind c params allowExtra) (Resolve.bind c' params allowExtra) := by
  intro s b s₁ hb
  unfold Resolve.bind at hb ⊢
  cases hbound : c.bind params allowExtra with
  | error e => rw [hbound] at hb; cases hb
  | ok r =>
    rw [hbound] at hb
    cases hb
    obtain ⟨place, r', hplace, hr', hholed⟩ := CallOf.bind_holed hargs hname hbound
    rw [hr']
    exact ⟨rfl, r', ⟨place, hplace, hholed⟩, fun _ => rfl⟩

theorem place_ne_extra {ε : Type} {c : CallOf ε} {params : List String} {next : Nat} {a : Arg ε}
    {name : String} : c.place params false next a ≠ .ok (.extra name) := by
  unfold CallOf.place
  split
  · split <;> simp
  · split <;> simp

theorem countP_attach (c : Call) (i : Nat) :
    (c.attach.args.take i).countP (·.name.isNone) = (c.args.take i).countP (·.name.isNone) := by
  conv_rhs => rw [← CallOf.attach_args c]
  rw [← List.map_take, List.countP_map]
  rfl

theorem mirrors_told_argument {ρ : Renaming} {D : Footprint} {reg : Region ρ D} {c c' : Call}
    (p : Param) {x : Option { e : Expr // ∃ a ∈ c.args, a.value = e }}
    {x' : Option { e : Expr // ∃ a ∈ c'.args, a.value = e }}
    (h : Option.Rel (fun x y => x.1.Retold v y.1) x x') :
    Mirrors reg v (Bound.Renamed ρ D) (argument c p x) (argument c' p x') := by
  refine mirrors_argument p ?_
  cases h with
  | none => exact .none
  | some h => exact .some ⟨h, mirrors_expr _ h⟩

theorem passes_study {i : Nat} {a a' : Arg Expr} {c c' : Call} (h : CallsAt v i a a' c c')
    (ha : ∀ st, Study.ofName? c.name = some st → ∀ p, st.param? (c.args.take i) a.name = some p →
      Handed v e past p a.value a'.value) :
    Passes v e (fun S k k' => k.Hoisted S.H past k') (study c) (study c') := by
  rw [study, study, h.name]
  cases hst : Study.ofName? c.name with
  | none => exact .absurd fun _ => yields_fail
  | some st =>
    obtain ⟨b, b', hargs, hb, hvalue, hb', hvalue'⟩ := CallOf.around_attach h.args
    refine .afterFree (free_bind_holed hargs (hb'.trans (h.label.trans hb.symm)) _ _) ?_
    rintro r r' ⟨place, hplace, hholed⟩
    cases hholed with
    | extra name k => exact (place_ne_extra hplace).elim
    | slot j hslots hextra =>
      have hparam := Study.param?_of_place (countP_attach c i) hplace
      have hj := CallOf.place_lt hplace
      rw [List.length_map] at hj
      rw [hb, List.getElem?_eq_getElem hj] at hparam
      have hhanded := ha st hst _ hparam
      have hbounds : Passes v e (fun S => OneAt (Bound.Renamed S.ρ S.H.others)
            (Bound.Hoisted S.H past) (Bound.Renamed S.ρ .all))
          (each (fun pa => argument c pa.1 pa.2) (st.params.zip r.slots))
          (each (fun pa => argument c' pa.1 pa.2) (st.params.zip r'.slots)) := by
        refine .each ((hslots.zip (List.getElem?_eq_getElem hj)).imp ?_ ?_ ?_)
        · rintro ⟨p, x⟩ ⟨_, x'⟩ ⟨rfl, hx⟩ S
          exact mirrors_told_argument _ hx
        · rintro _ _ ⟨rfl, rfl⟩
          rw [← hvalue, ← hvalue'] at hhanded
          exact passes_argument hhanded
        · rintro ⟨p, x⟩ ⟨_, x'⟩ ⟨rfl, hx⟩ S
          exact mirrors_told_argument _ hx
      refine hbounds.first fun S as as' has => ?_
      have has := Bound.allHoisted_of_oneAt has
      split
      · exact Mirrors.handle.map fun k k' hk => ⟨rfl, has, congrArg some hk.1.symm⟩
      · exact .pure ⟨rfl, has, rfl⟩

/-- A call of an indicator for its one value. -/
theorem passes_studyNode {i : Nat} {a a' : Arg Expr} {c c' : Call} (h : CallsAt v i a a' c c')
    (ha : ∀ st, Study.ofName? c.name = some st → ∀ p, st.param? (c.args.take i) a.name = some p →
      Handed v e past p a.value a'.value) (hta : c.name.startsWith "ta." = true) :
    Passes v e (fun S n n' => n.Hoisted S.H past n') (call c) (call c') := by
  rw [call, call, h.name, if_pos hta, if_pos hta]
  refine (passes_study h ha).first fun S k k' hk => ?_
  rw [hk.arity]
  split
  · exact fun _ _ _ => .bind yields_fail
  · exact .pure hk.node

theorem CallsAt.free_checkPositional {i : Nat} {a a' : Arg Expr} {c c' : Call}
    (h : CallsAt v i a a' c c') (count : ArgCount) :
    Free (fun _ _ => count.admits c.args.length = true) (checkPositional c count)
      (checkPositional c' count) := by
  obtain ⟨pre, post, pre', post', hsplit, hsplit', -, hpre, hpost⟩ := h.args
  refine Resolve.free_checkPositional (R := fun _ _ => True) ?_ count
  rw [hsplit, hsplit']
  exact List.rel_append (hpre.imp fun _ _ ha => ⟨ha.1, trivial⟩)
    (.cons ⟨h.label, trivial⟩ (hpost.imp fun _ _ ha => ⟨ha.1, trivial⟩))

theorem passes_positional {i : Nat} {a a' : Arg Expr} {c c' : Call} (h : CallsAt v i a a' c c')
    (ha : Hands v e past a.value a'.value) :
    Passes v e (fun S ns ns' => Node.AllHoisted S.H past ns ns')
      (each (fun (a : Arg { e : Expr // ∃ a ∈ c.args, a.value = e }) => expr a.value.1)
        c.attach.args)
      (each (fun (a : Arg { e : Expr // ∃ a ∈ c'.args, a.value = e }) => expr a.value.1)
        c'.attach.args) := by
  obtain ⟨b, b', hargs, -, hvalue, -, hvalue'⟩ := CallOf.around_attach h.args
  refine Passes.mono (.each (hargs.oneAt.imp ?_ ?_ ?_)) fun S _ _ hns =>
    Node.allHoisted_of_oneAt hns
  · exact fun _ _ hx S => mirrors_expr _ hx.2
  · rintro _ _ ⟨rfl, rfl⟩
    rw [hvalue, hvalue']
    exact ha.passes
  · exact fun _ _ hx S => mirrors_expr _ hx.2

theorem yields_each_length {β γ : Type} {f : β → ResolveM γ} (xs : List β) (s : Scope) :
    Yields (each f xs) s fun ys _ => ys.length = xs.length := by
  induction xs generalizing s with
  | nil => exact .pure rfl
  | cons x xs ih =>
    exact .bind fun y s₁ _ => .bind ((ih s₁).mono fun ys _ hys => .pure (congrArg Nat.succ hys))

/-- A call in one of whose arguments the series is. -/
theorem passes_call {i : Nat} {a a' : Arg Expr} {c c' : Call} (h : CallsAt v i a a' c c')
    (hnz : c.name ≠ "nz") (ha : Hands v e past a.value a'.value) :
    Passes v e (fun S n n' => n.Hoisted S.H past n') (call c) (call c') := by
  by_cases hta : c.name.startsWith "ta." = true
  · exact passes_studyNode h (fun _ _ _ _ => .within ha) hta
  have positional := passes_positional h ha
  rw [call, call, h.name, if_neg hta, if_neg hta]
  dsimp only
  cases MathFn.ofName? c.name with
  | some f =>
    exact .afterFree (h.free_checkPositional _) fun _ _ _ => positional.map fun S _ _ hns =>
      .math f hns
  | none =>
    dsimp only
    split
    · refine .afterFree (h.free_checkPositional _) fun _ _ hcount => ?_
      have hone : c.attach.args.length = 1 := by
        have : 1 ≤ c.args.length ∧ c.args.length ≤ 1 := by
          simpa [ArgCount.admits, ArgCount.exactly, Nat.succ_le_iff] using hcount
        rw [CallOf.attach, List.length_map, List.length_attach]
        omega
      refine (positional.yielding (yields_each_length c.attach.args)).map fun S ns ns' hns => ?_
      obtain ⟨hlength, hns⟩ := hns
      cases hns with
      | head hn _ => exact .isNa hn
      | tail _ hns =>
        rw [hone, List.length_cons, Nat.add_eq_right, List.length_eq_zero_iff] at hlength
        subst hlength
        cases hns
    exact .absurd fun _ => .bind yields_checkFunction

/-- A call whose first argument is replaced where it is not available. -/
theorem passes_nz {x x' : Expr} (hx : Hands v e past x x') (name : Option String) (p q : Nat)
    {as as' : List (Arg Expr)} (has : List.Forall₂ (Arg.Rel (Expr.Retold v)) as as') (p' q' : Nat) :
    Passes v e (fun S n n' => n.Hoisted S.H past n') (call ⟨"nz", ⟨name, x, p⟩ :: as, p'⟩)
      (call ⟨"nz", ⟨name, x', q⟩ :: as', q'⟩) := by
  have h : CallsAt v 0 ⟨name, x, p⟩ ⟨name, x', q⟩ ⟨"nz", ⟨name, x, p⟩ :: as, p'⟩
      ⟨"nz", ⟨name, x', q⟩ :: as', q'⟩ :=
    ⟨rfl, ⟨[], as, [], as', rfl, rfl, rfl, .nil, has⟩, rfl⟩
  have hta : ¬"nz".startsWith "ta." = true := by decide +kernel
  have hmath : MathFn.ofName? "nz" = none := by decide
  obtain ⟨b, b', ⟨pre, post, pre', post', hsplit, hsplit', hlength, hpre, hpost⟩, -, hvalue, -,
    hvalue'⟩ := CallOf.around_attach h.args
  obtain rfl := List.length_eq_zero_iff.1 hlength
  cases hpre
  rw [call, call, if_neg hta, if_neg hta]
  dsimp only
  rw [hmath, hsplit, hsplit']
  dsimp only
  rw [if_neg (by decide), if_pos rfl, if_neg (by decide), if_pos rfl]
  refine .afterFree (h.free_checkPositional _) fun _ _ _ => ?_
  have hvalues : Passes v e (fun S ns ns' => ∃ n n' rs rs', ns = n :: rs ∧ ns' = n' :: rs' ∧
        n.Hoisted S.H past n' ∧ List.Forall₂ (Node.Renamed S.ρ .all) rs rs')
      (each (fun a => expr a.value.1) (b :: post)) (each (fun a => expr a.value.1) (b' :: post')) := by
    rw [each, each, hvalue, hvalue']
    refine hx.passes.first fun S n n' hn => ?_
    have hrest : List.Forall₂ (fun b b' => Mirrors S.after v (Node.Renamed S.ρ .all)
        (expr b.value.1) (expr b'.value.1)) post post' := hpost.imp fun _ _ hb => mirrors_expr _ hb.2
    exact (Mirrors.each hrest).map fun rs rs' hrs => ⟨n, n', rs, rs', rfl, rfl, hn, hrs⟩
  refine hvalues.map fun S ns ns' hns => ?_
  obtain ⟨n, n', rs, rs', rfl, rfl, hn, hrs⟩ := hns
  cases hrs with
  | nil => exact .nz hn (.number _)
  | cons hr _ => exact .nz hn hr

theorem Naming.not_name {x x' : Expr} (h : Expr.Naming v e past x x') :
    (∀ n p, x ≠ .name n p) ∧ ∀ n p, x' ≠ .name n p := by
  cases h <;> exact ⟨by rintro _ _ ⟨⟩, by rintro _ _ ⟨⟩⟩

theorem Study.name_startsWith (st : Study) : st.name.startsWith "ta." = true := by
  cases st <;> decide +kernel

theorem Study.startsWith_of_ofName? {name : String} {st : Study} (h : Study.ofName? name = some st) :
    name.startsWith "ta." = true := by
  have hname := List.find?_some h
  rw [beq_iff_eq] at hname
  exact hname ▸ Study.name_startsWith st

theorem expr_history_of_not_name {t : Expr} (ht : ∀ n p, t ≠ .name n p) (o : Expr) (p : Nat) :
    expr (.history t o p) = (do
      let offset ← expr o
      let value ← expr t
      return .read (← computed value) (some offset)) := by
  rw [expr]
  cases t <;> first | rfl | exact (ht _ _ rfl).elim

theorem mirrors_newSeries {ρ : Renaming} {D : Footprint} {reg : Region ρ D} {n n' : Node} :
    Mirrors reg v (fun s s' => ∃ i i', s = .computed i n ∧ s' = .computed i' n' ∧
      ρ.slot (.computed, i) = (.computed, i')) (computed n) (computed n') :=
  (Mirrors.slot .computed).map fun i i' hi => ⟨i, i', rfl, rfl, hi.1⟩

/-- The argument itself is handed to its parameter. -/
theorem handed_here (he : ∀ n p, e ≠ .name n p) {name : String} {st : Study}
    (hst : Study.ofName? name = some st) {k : Option String} {param : Param}
    {pre pre' post post' : List (Arg Expr)} (hparam : st.param? pre k = some param)
    (hseries : param.TakesSeries) (hpre : Arg.AllRetold v pre pre')
    (hpost : Arg.AllRetold v post post') (p q p' q' r : Nat) :
    CallsAt v pre.length ⟨k, e, p⟩ ⟨k, .name v r, q⟩ ⟨name, pre ++ ⟨k, e, p⟩ :: post, p'⟩
        ⟨name, pre' ++ ⟨k, .name v r, q⟩ :: post', q'⟩ ∧
      ∀ st', Study.ofName? name = some st' → ∀ param',
        st'.param? ((pre ++ ⟨k, e, p⟩ :: post).take pre.length) k = some param' →
          Handed v e false param' e (.name v r) := by
  refine ⟨⟨rfl, ⟨_, _, _, _, rfl, rfl, rfl, hpre.forall₂, hpost.forall₂⟩, rfl⟩, ?_⟩
  intro st' hst' param' hparam'
  obtain rfl : st' = st := Option.some.inj (hst'.symm.trans hst)
  rw [List.take_left] at hparam'
  obtain rfl : param' = param := Option.some.inj (hparam'.symm.trans hparam)
  exact .whole rfl hseries he r

mutual

/-- **An expression** in which an argument is given a name. -/
theorem passes_expr (he : ∀ n p, e ≠ .name n p) (x : Expr) {past : Bool} {x' : Expr}
    (h : Expr.Naming v e past x x') :
    Passes v e (fun S n n' => n.Hoisted S.H past n') (expr x) (expr x') := by
  cases h with
  | @unary _ op x x' h =>
    rw [expr, expr]
    exact (passes_expr he x h).map fun S _ _ hn => .unary op hn
  | @left _ op l l' r r' h hr =>
    rw [expr, expr]
    exact (passes_expr he l h).first fun S _ _ hl => (mirrors_expr r hr).map fun _ _ hr =>
      .left op hl hr
  | @right _ op hop l l' r r' hl h =>
    rw [expr, expr]
    exact .middle (fun S => mirrors_expr l hl) (passes_expr he r h) fun S _ _ _ _ hl hr =>
      .pure (.right hop hl hr)
  | @cond _ c c' y y' n n' h hy hn =>
    rw [expr, expr]
    exact (passes_expr he c h).first fun S _ _ hc => (mirrors_expr y hy).bind fun _ _ hy =>
      (mirrors_expr n hn).map fun _ _ hn => .cond hc hy hn
  | @offset _ t t' o o' ht h p q =>
    have htarget (S : Setting) : Mirrors S.after v (Node.Renamed S.ρ .all) (expr t) (expr t') :=
      mirrors_expr t ht
    have hoffset := passes_expr he o h
    rw [expr, expr]
    cases ht
    case name hn p q =>
      exact hoffset.first fun S _ _ ho => mirrors_nameUnder hn p q (fun _ _ hs => .offset ho hs)
        (fun c => .clock c ho) fun x hx => (Mirrors.computed hx).map fun _ _ hs => .offset ho hs
    all_goals exact hoffset.first fun S _ _ ho => (htarget S).bind fun _ _ hn =>
      (Mirrors.computed hn).map fun _ _ hs => .offset ho hs
  | @target past t t' o o' ho h p q =>
    have htarget := passes_expr he t h
    have hoffset (S : Setting) :
        Mirrors S.before v (Node.Renamed S.ρ S.H.others) (expr o) (expr o') := mirrors_expr o ho
    rw [expr_history_of_not_name (Naming.not_name h).1, expr_history_of_not_name (Naming.not_name h).2]
    exact .middle hoffset htarget fun S _ _ _ _ ho hn => mirrors_newSeries.map fun s s' hs => by
      obtain ⟨i, i', rfl, rfl, hi⟩ := hs
      exact .target ho hn hi
  | @argument _ name hname as as' h p q =>
    obtain ⟨i, a, a', hargs, hlabel, -, ha⟩ := hands_args he as h
    rw [expr, expr]
    exact passes_call ⟨rfl, hargs, hlabel⟩ hname ha
  | @operand _ name x x' h p q as as' has p' q' =>
    rw [expr, expr]
    exact passes_nz ⟨(Naming.not_name h).1, (Naming.not_name h).2, passes_expr he x h⟩ name p q
      has.forall₂ p' q'
  | here hst hparam hseries hpre hpost p q p' q' r =>
    rw [expr, expr]
    obtain ⟨hcalls, hhanded⟩ := handed_here he hst hparam hseries hpre hpost p q p' q' r
    exact passes_studyNode hcalls hhanded (Study.startsWith_of_ofName? hst)

theorem hands_args (he : ∀ n p, e ≠ .name n p) (as : List (Arg Expr)) {past : Bool}
    {as' : List (Arg Expr)} (h : Arg.OneNaming v e past as as') : ∃ i a a',
      Around (Arg.Rel (Expr.Retold v)) i a a' as as' ∧ a'.name = a.name ∧
        Expr.Naming v e past a.value a'.value ∧ Hands v e past a.value a'.value := by
  cases h with
  | @head _ name x x' h p q as as' has =>
    exact ⟨0, ⟨name, x, p⟩, ⟨name, x', q⟩, ⟨[], as, [], as', rfl, rfl, rfl, .nil, has.forall₂⟩, rfl,
      h, (Naming.not_name h).1, (Naming.not_name h).2, passes_expr he x h⟩
  | @tail _ name x x' hx p q as as' h =>
    obtain ⟨i, a, a', ⟨pre, post, pre', post', rfl, rfl, rfl, hpre, hpost⟩, hlabel, ha⟩ :=
      hands_args he as h
    exact ⟨_, a, a', ⟨⟨name, x, p⟩ :: pre, post, ⟨name, x', q⟩ :: pre', post', rfl, rfl, rfl,
      .cons ⟨rfl, hx⟩ hpre, hpost⟩, hlabel, ha⟩

end

end Resolve

end BarScript
