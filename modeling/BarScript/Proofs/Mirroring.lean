import BarScript.Proofs.Arguments
import BarScript.Proofs.Growth
import BarScript.Proofs.Retelling

/-!
# Resolution at other numbers

A `Region` of a renaming is a range of slots and handles that are all moved by the same distance.
`Mirrors`: from scopes at that distance, two resolutions give results that differ by the renaming
and scopes at that distance, as long as the first one stays in the region. An expression and the
same expression at other positions mirror each other (`mirrors_expr`).
-/

namespace BarScript

/-- Slots and handles that a renaming moves by the same distance, in a footprint. -/
structure Region (ρ : Renaming) (D : Footprint) where
  slots : Bank × Nat → Prop
  calls : Nat → Prop
  /-- The distance of the slots of each bank, and of the handles. -/
  shift : Bank → Int
  turn : Int
  slot : ∀ {b : Bank} {i j : Nat}, slots (b, i) → (j : Int) = i + shift b → ρ.slot (b, i) = (b, j)
  handle : ∀ {i j : Nat}, calls i → (j : Int) = i + turn → ρ.handle i = j
  writes : ∀ {a}, slots a → D.writes a
  called : ∀ {i}, calls i → D.calls i
  reads : ∀ {b i}, b ≠ .computed → D.reads (b, i)

/-- A name stands for the same plot, or for the slot with the new number. -/
inductive Binding.Renamed (ρ : Renaming) : Binding → Binding → Prop
  | series {b : Bank} {i i' : Nat} (hb : b ≠ .computed) (h : ρ.slot (b, i) = (b, i')) :
      Renamed ρ (.series b i) (.series b i')
  | plot (title : String) : Renamed ρ (.plot title) (.plot title)

namespace Region

variable {ρ : Renaming} {D : Footprint} (reg : Region ρ D) (v : String)

/-- The scopes are at the distance of the region, and know the same names, up to `v`. -/
structure Shifted (s s' : Scope) : Prop where
  names : ∀ n, n ≠ v → Option.Rel (Binding.Renamed ρ) (s.find? n) (s'.find? n)
  taken : ∀ b, (s'.taken b : Int) = s.taken b + reg.shift b
  handles : (s'.handles : Int) = s.handles + reg.turn

/-- What is taken between two scopes is in the region. -/
structure Covers (s s₁ : Scope) : Prop where
  slots : ∀ b i, s.taken b ≤ i → i < s₁.taken b → reg.slots (b, i)
  calls : ∀ i, s.handles ≤ i → i < s₁.handles → reg.calls i

variable {reg v} {s s' s₁ s₂ : Scope}

theorem Covers.left (h : reg.Covers s s₂) (hle : s₁.Le s₂) : reg.Covers s s₁ where
  slots b i hi hi' := h.slots b i hi (Nat.lt_of_lt_of_le hi' (hle.taken b))
  calls i hi hi' := h.calls i hi (Nat.lt_of_lt_of_le hi' hle.handles)

theorem Covers.right (h : reg.Covers s s₂) (hle : s.Le s₁) : reg.Covers s₁ s₂ where
  slots b i hi hi' := h.slots b i (Nat.le_trans (hle.taken b) hi) hi'
  calls i hi hi' := h.calls i (Nat.le_trans hle.handles hi) hi'

theorem Covers.take {b : Bank} (h : reg.Covers s (s.take b)) : reg.slots (b, s.taken b) :=
  h.slots b _ (Nat.le_refl _) (by simp)

theorem Shifted.take (h : reg.Shifted v s s') (b : Bank) :
    reg.Shifted v (s.take b) (s'.take b) where
  names n hn := by
    simp only [Scope.find?, Scope.names_take]
    exact h.names n hn
  taken b' := by
    have := h.taken b
    rw [Scope.taken_take, Scope.taken_take]
    split
    · rename_i hb
      subst hb
      push_cast
      omega
    · exact h.taken b'
  handles := by
    rw [Scope.handles_take, Scope.handles_take]
    exact h.handles

theorem Shifted.turn (h : reg.Shifted v s s') :
    reg.Shifted v { s with handles := s.handles + 1 } { s' with handles := s'.handles + 1 } where
  names := h.names
  taken b := by
    have := h.taken b
    cases b <;> exact this
  handles := by
    have := h.handles
    push_cast
    omega

theorem Shifted.declare (h : reg.Shifted v s s') {n : String} {b b' : Binding}
    (hb : b.Renamed ρ b') :
    reg.Shifted v { s with names := s.names ++ [(n, b)] } { s' with names := s'.names ++ [(n, b')] }
    where
  names m hm := by
    have hfind : ∀ (t : Scope) (b : Binding), ({ t with names := t.names ++ [(n, b)] } : Scope).find? m =
        (t.find? m).or (if n = m then some b else none) := by
      intro t b
      simp only [Scope.find?, List.find?_append, List.find?_singleton, beq_iff_eq]
      cases t.names.find? (·.1 == m) <;> by_cases hn : n = m <;> simp [hn]
    rw [hfind, hfind]
    have hm := h.names m hm
    generalize s.find? m = o at hm
    generalize s'.find? m = o' at hm
    cases hm with
    | some hb => exact .some hb
    | none =>
      by_cases hn : n = m
      · simpa [hn] using hb
      · simp [hn]
  taken b := by
    have := h.taken b
    cases b <;> exact this
  handles := h.handles

end Region

namespace Resolve

variable {β γ β' γ' : Type}

/-- Neither computation looks at the scope, and if the first succeeds, the second does. -/
def Free (Rel : β → γ → Prop) (m : ResolveM β) (m' : ResolveM γ) : Prop :=
  ∀ s, Yields m s fun x s₁ => s₁ = s ∧ ∃ x', Rel x x' ∧ ∀ s', m' s' = .ok (x', s')

section

variable {ρ : Renaming} {D : Footprint} (reg : Region ρ D) (v : String)

/-- The second computation does what the first one does, at the distance of the region. -/
def Mirrors (Rel : β → γ → Prop) (m : ResolveM β) (m' : ResolveM γ) : Prop :=
  ∀ s s', reg.Shifted v s s' → Yields m s fun x s₁ => reg.Covers s s₁ →
    ∃ x' s₁', m' s' = .ok (x', s₁') ∧ Rel x x' ∧ reg.Shifted v s₁ s₁'

namespace Mirrors

variable {reg v} {Rel : β → γ → Prop} {Rel' : β' → γ' → Prop}
variable {m : ResolveM β} {m' : ResolveM γ} {f : β → ResolveM β'} {f' : γ → ResolveM γ'}

theorem pure {x : β} {x' : γ} (h : Rel x x') : Mirrors reg v Rel (pure x) (pure x') :=
  fun _ s' hs => .pure fun _ => ⟨x', s', rfl, h, hs⟩

theorem fail (position : Nat) (fault : ResolveFault) :
    Mirrors reg v Rel (Resolve.fail position fault) m' :=
  fun _ _ _ => yields_fail

theorem bind [hgrows : Grows m] [hgrows' : ∀ x, Grows (f x)] (hm : Mirrors reg v Rel m m')
    (hf : ∀ x x', Rel x x' → Mirrors reg v Rel' (f x) (f' x')) :
    Mirrors reg v Rel' (m >>= f) (m' >>= f') := by
  intro s s' hs
  refine .bind fun x s₁ hx y s₂ hy hcovers => ?_
  have hle := (hgrows.le s) x s₁ hx
  have hle' := ((hgrows' x).le s₁) y s₂ hy
  obtain ⟨x', s₁', hx', hrel, hs₁⟩ := hm s s' hs x s₁ hx (hcovers.left hle')
  obtain ⟨y', s₂', hy', hrel', hs₂⟩ := hf x x' hrel s₁ s₁' hs₁ y s₂ hy (hcovers.right hle)
  exact ⟨y', s₂', (bind_ok hx').trans hy', hrel', hs₂⟩

/-- What does not look at the scope comes first. -/
theorem after (hm : Free Rel m m') (hf : ∀ x x', Rel x x' → Mirrors reg v Rel' (f x) (f' x')) :
    Mirrors reg v Rel' (m >>= f) (m' >>= f') := by
  intro s s' hs
  refine .bind fun x s₁ hx y s₂ hy hcovers => ?_
  obtain ⟨rfl, x', hrel, hx'⟩ := hm s x s₁ hx
  obtain ⟨y', s₂', hy', hrel', hs₂⟩ := hf x x' hrel s₁ s' hs y s₂ hy hcovers
  exact ⟨y', s₂', (bind_ok (hx' s')).trans hy', hrel', hs₂⟩

theorem map [Grows m] {g : β → β'} {g' : γ → γ'} (hm : Mirrors reg v Rel m m')
    (hg : ∀ x x', Rel x x' → Rel' (g x) (g' x')) :
    Mirrors reg v Rel' (do let x ← m; Pure.pure (g x)) (do let x ← m'; Pure.pure (g' x)) :=
  hm.bind fun x x' h => pure (hg x x' h)

theorem mono {Rel' : β → γ → Prop} (hm : Mirrors reg v Rel m m') (h : ∀ x x', Rel x x' → Rel' x x') :
    Mirrors reg v Rel' m m' := fun s s' hs => (hm s s' hs).mono fun _ _ hx hcovers =>
  (hx hcovers).imp fun _ => Exists.imp fun _ hx => ⟨hx.1, h _ _ hx.2.1, hx.2.2⟩

/-- The scope is looked at. -/
theorem get {f : Scope → ResolveM β} {f' : Scope → ResolveM γ}
    (hf : ∀ s s', reg.Shifted v s s' → Mirrors reg v Rel (f s) (f' s')) :
    Mirrors reg v Rel (MonadState.get >>= f) (MonadState.get >>= f') := by
  intro s s' hs
  exact .bind (yields_get fun y s₁ hy hcovers => hf s s' hs s s' hs y s₁ hy hcovers)

theorem slot (b : Bank) :
    Mirrors reg v (fun i i' => ρ.slot (b, i) = (b, i') ∧ D.writes (b, i)) (slot b) (slot b) :=
  fun _ _ hs => yields_slot fun hcovers =>
    ⟨_, _, rfl, ⟨reg.slot hcovers.take (hs.taken b), reg.writes hcovers.take⟩, hs.take b⟩

theorem handle : Mirrors reg v (fun i i' => ρ.handle i = i' ∧ D.calls i) handle handle :=
  fun _ _ hs => yields_handle fun hcovers =>
    have hcall := hcovers.calls _ (Nat.le_refl _) (Nat.lt_succ_self _)
    ⟨_, _, rfl, ⟨reg.handle hcall hs.handles, reg.called hcall⟩, hs.turn⟩

theorem computed {n n' : Node} (h : n.Renamed ρ D n') :
    Mirrors reg v (Source.Renamed ρ D) (computed n) (computed n') :=
  (slot .computed).map fun _ _ hi => .computed hi.1 hi.2 h

theorem each {f : β → ResolveM β'} {f' : γ → ResolveM γ'} [∀ x, Grows (f x)] {xs : List β}
    {xs' : List γ} (h : List.Forall₂ (fun x x' => Mirrors reg v Rel' (f x) (f' x')) xs xs') :
    Mirrors reg v (List.Forall₂ Rel') (each f xs) (each f' xs') := by
  induction h with
  | nil => exact pure .nil
  | cons hx _ ih =>
    have : ∀ xs, Grows (Resolve.each f xs) := by
      intro xs
      induction xs with
      | nil => exact inferInstanceAs (Grows (Pure.pure _))
      | cons x xs ih => unfold Resolve.each; infer_instance
    exact hx.bind fun y y' hy => ih.map fun _ _ hys => .cons hy hys

end Mirrors

/-! ## Expressions -/

variable {reg v}

/-- A value under an offset, if there is one. -/
def underOffset (o : Option Node) (n : Node) : ResolveM Node :=
  match o with
  | none => return n
  | some o => return .read (← computed n) (some o)

theorem mirrors_underOffset {o o' : Option Node} (ho : Node.OffsetRenamed ρ D o o') {n n' : Node}
    (h : n.Renamed ρ D n') :
    Mirrors reg v (Node.Renamed ρ D) (underOffset o n) (underOffset o' n') := by
  cases ho with
  | none => exact .pure h
  | some ho => exact (Mirrors.computed h).map fun _ _ hs => .read (.some ho) hs

/-- What a name stands for, under offsets that need not mirror each other. -/
theorem mirrors_nameUnder {n : String} (hn : n ≠ v) (p q : Nat) {o o' : Option Node}
    {Rel : Node → Node → Prop}
    (hread : ∀ s s', Source.Renamed ρ D s s' → Rel (.read s o) (.read s' o'))
    (hclock : ∀ c, Rel (.clock c o) (.clock c o'))
    (hunder : ∀ x, x.Renamed ρ D x → Mirrors reg v Rel (underOffset o x) (underOffset o' x)) :
    Mirrors reg v Rel (name n p o) (name n q o') := by
  unfold name
  refine .get fun s s' hs => ?_
  have hbinding := hs.names n hn
  generalize s.find? n = b at hbinding
  generalize s'.find? n = b' at hbinding
  cases hbinding with
  | some hb =>
    cases hb with
    | series hb h => exact .pure (hread _ _ (.slot h (reg.reads hb)))
    | plot title => exact .fail _ _
  | none =>
    dsimp only
    cases Price.ofName? n with
    | some price => exact .pure (hread _ _ (.price price))
    | none =>
      cases Clock.ofName? n with
      | some c => exact .pure (hclock c)
      | none =>
        dsimp only
        split
        · exact hunder _ .barIndex
        split
        · have hcall : Node.Renamed ρ D (.study ⟨.tr, [.number (.number (.ofNat 0))], none⟩) _ :=
            .study _ (.cons (.number (.number _)) .nil) nofun
          exact hunder _ hcall
        split <;> exact fun _ _ _ => .bind yields_fail

theorem mirrors_name {n : String} (hn : n ≠ v) (p q : Nat) {o o' : Option Node}
    (ho : Node.OffsetRenamed ρ D o o') :
    Mirrors reg v (Node.Renamed ρ D) (name n p o) (name n q o') :=
  mirrors_nameUnder hn p q (fun _ _ hs => .read ho hs) (fun c => .clock c ho)
    fun _ hx => mirrors_underOffset ho hx

/-- Expressions that mirror each other, and no name among them stands for `v`. -/
def Told (reg : Region ρ D) (v : String) (x x' : Expr) : Prop :=
  x.Retold v x' ∧ Mirrors reg v (Node.Renamed ρ D) (expr x) (expr x')

theorem namedSource?_mirrors {x x' : Expr} (hx : x.Retold v x') {s s' : Scope}
    (hs : reg.Shifted v s s') :
    Option.Rel (Source.Renamed ρ D) (namedSource? s x) (namedSource? s' x') := by
  cases hx with
  | @name n hn p q =>
    have hbinding := hs.names n hn
    unfold namedSource?
    dsimp only
    generalize s.find? n = b at hbinding
    generalize s'.find? n = b' at hbinding
    cases hbinding with
    | some hb =>
      cases hb with
      | series hb h => exact .some (.slot h (reg.reads hb))
      | plot title => exact .none
    | none =>
      dsimp only
      cases Price.ofName? n with
      | some price => exact .some (.price price)
      | none => exact .none
  | _ => exact .none

theorem mirrors_source {x x' : Expr} (h : Told reg v x x') :
    Mirrors reg v (Source.Renamed ρ D) (source x) (source x') := by
  rw [source, source]
  refine .get fun s s' hs => ?_
  have hnamed := namedSource?_mirrors h.1 hs
  generalize namedSource? s x = o at hnamed
  generalize namedSource? s' x' = o' at hnamed
  cases hnamed with
  | some hs => exact .pure hs
  | none => exact h.2.bind fun _ _ hn => .computed hn

theorem mirrors_argument {c c' : Call} (p : Param)
    {a : Option { e : Expr // ∃ a ∈ c.args, a.value = e }}
    {a' : Option { e : Expr // ∃ a ∈ c'.args, a.value = e }}
    (h : Option.Rel (fun x y => Told reg v x.1 y.1) a a') :
    Mirrors reg v (Bound.Renamed ρ D) (argument c p a) (argument c' p a') := by
  rw [argument.eq_def, argument.eq_def]
  cases h with
  | none =>
    cases p.kind with
    | default l => exact .pure (.number (.number l))
    | optionalSeries => exact .pure .absent
    | optionalNumber => exact .pure .absent
    | series => exact .fail _ _
    | number => exact .fail _ _
  | some h =>
    have series := (mirrors_source h).map fun _ _ hs => Bound.Renamed.series hs
    have number := h.2.map fun _ _ hn => Bound.Renamed.number hn
    cases p.kind with
    | series => exact series
    | optionalSeries => exact series
    | number => exact number
    | optionalNumber => exact number
    | default l => exact number

/-- Related arguments are bound to the same parameters. -/
theorem free_bind {ε ε' : Type} {R : ε → ε' → Prop} {c : CallOf ε} {c' : CallOf ε'}
    (h : List.Forall₂ (Arg.Rel R) c.args c'.args) (params : List String) (allowExtra : Bool) :
    Free (BoundArgs.Rel R) (Resolve.bind c params allowExtra)
      (Resolve.bind c' params allowExtra) := by
  intro s b s₁ hb
  unfold Resolve.bind at hb ⊢
  cases hbound : c.bind params allowExtra with
  | error e => rw [hbound] at hb; cases hb
  | ok r =>
    rw [hbound] at hb
    cases hb
    obtain ⟨r', hr', hrel⟩ := CallOf.bind_rel h hbound
    rw [hr']
    exact ⟨rfl, r', hrel, fun _ => rfl⟩

theorem forall₂_zip {ε ε' δ : Type} {R : ε → ε' → Prop} {xs : List ε} {ys : List ε'}
    (h : List.Forall₂ R xs ys) (ps : List δ) :
    List.Forall₂ (fun x y => y.1 = x.1 ∧ R x.2 y.2) (ps.zip xs) (ps.zip ys) := by
  induction h generalizing ps with
  | nil => rw [List.zip_nil_right, List.zip_nil_right]; exact .nil
  | cons hx _ ih =>
    cases ps with
    | nil => exact .nil
    | cons p ps => exact .cons ⟨rfl, hx⟩ (ih ps)

theorem mirrors_study {c c' : Call} (hname : c'.name = c.name)
    (hargs : List.Forall₂ (Arg.Rel (Told reg v)) c.args c'.args) :
    Mirrors reg v (StudyCallOf.Renamed ρ D) (study c) (study c') := by
  rw [study, study, hname]
  cases Study.ofName? c.name with
  | none => exact .fail _ _
  | some st =>
    refine .after (free_bind (CallOf.forall₂_attach hargs) _ _) fun b b' hb => ?_
    have hbounds : Mirrors reg v (List.Forall₂ (Bound.Renamed ρ D))
        (each (fun pa => argument c pa.1 pa.2) (st.params.zip b.slots))
        (each (fun pa => argument c' pa.1 pa.2) (st.params.zip b'.slots)) :=
      .each <| (forall₂_zip hb.slots st.params).imp <| by
        rintro ⟨p, a⟩ ⟨_, a'⟩ ⟨rfl, ha⟩
        exact mirrors_argument _ ha
    refine hbounds.bind fun as as' has => ?_
    have has := Bound.allRenamed_iff.2 has
    split
    · refine Mirrors.handle.map fun h h' hh => ⟨rfl, has, congrArg some hh.1.symm, ?_⟩
      rintro _ ⟨⟩
      exact hh.2
    · exact .pure ⟨rfl, has, rfl, nofun⟩

theorem free_checkPositional {R : Expr → Expr → Prop} {c c' : Call}
    (hargs : List.Forall₂ (Arg.Rel R) c.args c'.args) (count : ArgCount) :
    Free (fun _ _ => count.admits c.args.length = true) (checkPositional c count)
      (checkPositional c' count) := by
  intro s x s₁ hx
  unfold checkPositional at hx ⊢
  have hnames : c'.args.find? (·.name.isSome) = none ↔ c.args.find? (·.name.isSome) = none := by
    clear hx
    generalize c.args = as at hargs
    generalize c'.args = as' at hargs
    induction hargs with
    | nil => rfl
    | cons ha _ ih =>
      rw [List.find?_cons, List.find?_cons, ha.1]
      split
      · simp
      · exact ih
  cases hfind : c.args.find? (·.name.isSome) with
  | some a => rw [hfind] at hx; cases hx
  | none =>
    rw [hfind] at hx
    rw [hnames.2 hfind, ← hargs.length_eq]
    dsimp only at hx ⊢
    split at hx
    · cases hx
    · rename_i hcount
      cases hx
      rw [if_neg hcount]
      exact ⟨rfl, (), by simpa using hcount, fun _ => rfl⟩

theorem mirrors_positional {c c' : Call}
    (hargs : List.Forall₂ (Arg.Rel (Told reg v)) c.args c'.args) :
    Mirrors reg v (Node.AllRenamed ρ D)
      (each (fun (a : Arg { e : Expr // ∃ a ∈ c.args, a.value = e }) => expr a.value.1)
        c.attach.args)
      (each (fun (a : Arg { e : Expr // ∃ a ∈ c'.args, a.value = e }) => expr a.value.1)
        c'.attach.args) :=
  (Mirrors.each ((CallOf.forall₂_attach hargs).imp fun _ _ ha => ha.2.2)).mono fun _ _ h =>
    Node.allRenamed_iff.2 h

theorem mirrors_call {c c' : Call} (hname : c'.name = c.name)
    (hargs : List.Forall₂ (Arg.Rel (Told reg v)) c.args c'.args) :
    Mirrors reg v (Node.Renamed ρ D) (call c) (call c') := by
  have positional := mirrors_positional hargs
  rw [call, call, hname]
  split
  · refine .bind (mirrors_study hname hargs) fun k k' hk => ?_
    rw [hk.arity]
    split
    · exact fun _ _ _ => .bind yields_fail
    · exact .pure hk.node
  dsimp only
  cases MathFn.ofName? c.name with
  | some f =>
    exact .after (free_checkPositional hargs _) fun _ _ _ => positional.map fun _ _ h => .math f h
  | none =>
    dsimp only
    split
    · refine .after (free_checkPositional hargs _) fun _ _ _ => positional.map fun ns ns' h => ?_
      cases h with
      | nil => exact .isNa .na
      | cons hn _ => exact .isNa hn
    split
    · refine .after (free_checkPositional hargs _) fun _ _ _ => positional.map fun ns ns' h => ?_
      cases h with
      | nil => exact .nz .na (.number _)
      | cons hn hns =>
        cases hns with
        | nil => exact .nz hn (.number _)
        | cons hr _ => exact .nz hn hr
    · exact fun _ _ _ => .bind yields_checkFunction

mutual

theorem mirrors_expr (x : Expr) {x' : Expr} (h : x.Retold v x') :
    Mirrors reg v (Node.Renamed ρ D) (expr x) (expr x') := by
  cases h with
  | number l => rw [expr]; exact .pure (.number l)
  | flag b => rw [expr]; exact .pure (.flag b)
  | text s => rw [expr]; exact .fail _ _
  | na => rw [expr]; exact .pure .na
  | name hn p q => rw [expr, expr]; exact mirrors_name hn p q .none
  | @history t t' o o' ht ho p q =>
    have htarget := mirrors_expr t ht
    have hoffset := mirrors_expr o ho
    rw [expr, expr]
    cases ht
    case name hn p q => exact hoffset.bind fun _ _ ho => mirrors_name hn p q (.some ho)
    all_goals exact hoffset.bind fun _ _ ho => htarget.bind fun _ _ hn =>
      (Mirrors.computed hn).map fun _ _ hs => .read (.some ho) hs
  | @unary op x x' h =>
    rw [expr, expr]
    exact (mirrors_expr x h).map fun _ _ h => .unary op h
  | @binary op l l' r r' hl hr =>
    rw [expr, expr]
    exact (mirrors_expr l hl).bind fun _ _ hl => (mirrors_expr r hr).map fun _ _ hr =>
      .binary op hl hr
  | @ternary c c' y y' n n' hc hy hn =>
    rw [expr, expr]
    exact (mirrors_expr c hc).bind fun _ _ hc => (mirrors_expr y hy).bind fun _ _ hy =>
      (mirrors_expr n hn).map fun _ _ hn => .ternary hc hy hn
  | @call name as as' has p q =>
    rw [expr, expr]
    exact mirrors_call rfl (mirrors_args as has)

theorem mirrors_args (as : List (Arg Expr)) {as' : List (Arg Expr)} (h : Arg.AllRetold v as as') :
    List.Forall₂ (Arg.Rel (Told reg v)) as as' := by
  cases h with
  | nil => exact .nil
  | @cons name x x' hx p q as as' has => exact .cons ⟨rfl, hx, mirrors_expr x hx⟩ (mirrors_args as has)

end

end

end Resolve

end BarScript
