import BarScript.Proofs.Arguments
import BarScript.Proofs.Resolution

/-!
# Other names for variables

A script may be rewritten with other names for its variables. A `Respelling` gives new names and moves
plain names only: those that no built-in has and that have no dot. Under one, resolution gives the
same results and fails at the same places (`Respelling.Follows`), from expressions up to programs.
That is all that can be said of errors, since their words repeat the names.

A program is free to choose: names that are new to it and plain can be extended to a respelling, so
it compiles to the same program with them (`compile_renamed`).
-/

namespace BarScript

/-! ## Renamed trees -/

/-- A name that variables may have, and nothing that is built in. -/
def PlainName (n : String) : Prop :=
  '.' ∉ n.toList ∧ Price.ofName? n = none ∧ Clock.ofName? n = none ∧ n ≠ "bar_index"

instance : DecidablePred PlainName := fun _ => inferInstanceAs (Decidable (_ ∧ _ ∧ _ ∧ _))

namespace PlainName

variable {n : String}

theorem startsWith (h : PlainName n) {pre : String} (hpre : '.' ∈ pre.toList) :
    n.startsWith pre = false := by
  rw [Bool.eq_false_iff, ne_eq, String.startsWith_string_iff]
  exact fun hfront => h.1 (hfront.subset hpre)

theorem ne_dotted (h : PlainName n) {m : String} (hm : '.' ∈ m.toList) : n ≠ m := by
  rintro rfl
  exact h.1 hm

end PlainName

mutual

/-- The expression with other names for variables. Functions and arguments keep theirs. -/
def Expr.renamed (f : String → String) : Expr → Expr
  | .number l => .number l
  | .flag b => .flag b
  | .text s => .text s
  | .na => .na
  | .name n p => .name (f n) p
  | .history target offset p => .history (target.renamed f) (offset.renamed f) p
  | .unary op e => .unary op (e.renamed f)
  | .binary op l r => .binary op (l.renamed f) (r.renamed f)
  | .ternary c y n => .ternary (c.renamed f) (y.renamed f) (n.renamed f)
  | .call ⟨n, args, p⟩ => .call ⟨n, Arg.allRenamed f args, p⟩

def Arg.allRenamed (f : String → String) : List (Arg Expr) → List (Arg Expr)
  | [] => []
  | ⟨name, value, p⟩ :: as => ⟨name, value.renamed f, p⟩ :: Arg.allRenamed f as

end

mutual

/-- The names in an expression. -/
def Expr.names : Expr → List String
  | .number _ => []
  | .flag _ => []
  | .text _ => []
  | .na => []
  | .name n _ => [n]
  | .history target offset _ => target.names ++ offset.names
  | .unary _ e => e.names
  | .binary _ l r => l.names ++ r.names
  | .ternary c y n => c.names ++ (y.names ++ n.names)
  | .call ⟨_, args, _⟩ => Arg.allNames args

def Arg.allNames : List (Arg Expr) → List String
  | [] => []
  | ⟨_, value, _⟩ :: as => value.names ++ Arg.allNames as

end

section

variable {ε ε' : Type} (g : ε → ε')

/-- The argument with another value. -/
def Arg.map (a : Arg ε) : Arg ε' := ⟨a.name, g a.value, a.position⟩

/-- The call with other values of its arguments. -/
def CallOf.map (c : CallOf ε) : CallOf ε' := ⟨c.name, c.args.map (Arg.map g), c.position⟩

def BoundArgs.map (b : BoundArgs ε) : BoundArgs ε' :=
  ⟨b.slots.map (Option.map g), b.extra.map (Prod.map id g)⟩

end

abbrev CallOf.renamed (f : String → String) (c : Call) : Call := c.map (Expr.renamed f)

def Returned.renamed (f : String → String) : Returned → Returned
  | single e => .single (e.renamed f)
  | named xs => .named (xs.map (Prod.map id (Expr.renamed f)))

/-- The statement with other names for variables. -/
def Statement.renamed (f : String → String) : Statement → Statement
  | declare kind n value p => .declare kind (f n) (value.renamed f) p
  | reassign n value p => .reassign (f n) (value.renamed f) p
  | unpack ns call p => .unpack (ns.map f) (call.renamed f) p
  | expr e => .expr (e.renamed f)
  | result value p => .result (value.renamed f) p

def Returned.names : Returned → List String
  | single e => e.names
  | named xs => xs.flatMap (·.2.names)

/-- The names in a statement. -/
def Statement.names : Statement → List String
  | declare _ n value _ => n :: value.names
  | reassign n value _ => n :: value.names
  | unpack ns call _ => ns ++ Arg.allNames call.args
  | expr e => e.names
  | result value _ => value.names

/-- The names that a statement declares. -/
def Statement.declaredNames : Statement → List String
  | declare _ n _ _ => [n]
  | unpack ns _ _ => ns
  | _ => []

theorem Arg.allRenamed_eq (f : String → String) (as : List (Arg Expr)) :
    Arg.allRenamed f as = as.map (Arg.map (Expr.renamed f)) := by
  induction as with
  | nil => rfl
  | cons a as ih => rw [allRenamed, ih]; rfl

theorem Expr.renamed_call (f : String → String) (c : Call) :
    (Expr.call c).renamed f = .call (c.renamed f) := by
  rw [Expr.renamed, Arg.allRenamed_eq]
  rfl

@[simp] theorem Expr.position_renamed (f : String → String) :
    (e : Expr) → (e.renamed f).position = e.position
  | .number _ | .flag _ | .text _ | .na | .name _ _ | .history _ _ _ | .call ⟨_, _, _⟩ => rfl
  | .unary _ e => e.position_renamed f
  | .binary _ l _ => l.position_renamed f
  | .ternary c _ _ => c.position_renamed f

@[simp] theorem Statement.position_renamed (f : String → String) (st : Statement) :
    (st.renamed f).position = st.position := by
  cases st with
  | expr e => exact e.position_renamed f
  | _ => rfl

mutual

/-- Only the names that there are matter. -/
theorem Expr.renamed_congr {f g : String → String} :
    (e : Expr) → (∀ n ∈ e.names, f n = g n) → e.renamed f = e.renamed g
  | .number _, _ | .flag _, _ | .text _, _ | .na, _ => rfl
  | .name n p, h => by rw [Expr.renamed, h n (.head _)]; rfl
  | .history t o _, h => by
    obtain ⟨ht, ho⟩ := List.forall_mem_append.1 h
    rw [Expr.renamed, t.renamed_congr ht, o.renamed_congr ho]; rfl
  | .unary _ e, h => by rw [Expr.renamed, e.renamed_congr h]; rfl
  | .binary _ l r, h => by
    obtain ⟨hl, hr⟩ := List.forall_mem_append.1 h
    rw [Expr.renamed, l.renamed_congr hl, r.renamed_congr hr]; rfl
  | .ternary c y n, h => by
    obtain ⟨hc, hyn⟩ := List.forall_mem_append.1 h
    obtain ⟨hy, hn⟩ := List.forall_mem_append.1 hyn
    rw [Expr.renamed, c.renamed_congr hc, y.renamed_congr hy, n.renamed_congr hn]; rfl
  | .call ⟨_, args, _⟩, h => by rw [Expr.renamed, Arg.allRenamed_congr args h]; rfl

theorem Arg.allRenamed_congr {f g : String → String} :
    (as : List (Arg Expr)) → (∀ n ∈ Arg.allNames as, f n = g n) →
      Arg.allRenamed f as = Arg.allRenamed g as
  | [], _ => rfl
  | ⟨_, value, _⟩ :: as, h => by
    obtain ⟨hvalue, has⟩ := List.forall_mem_append.1 h
    rw [Arg.allRenamed, value.renamed_congr hvalue, Arg.allRenamed_congr as has]; rfl

end

theorem CallOf.renamed_congr {f g : String → String} (c : Call)
    (h : ∀ n ∈ Arg.allNames c.args, f n = g n) : c.renamed f = c.renamed g := by
  have hargs := Arg.allRenamed_congr c.args h
  rw [Arg.allRenamed_eq, Arg.allRenamed_eq] at hargs
  rw [CallOf.renamed, CallOf.map, hargs]
  rfl

theorem Statement.renamed_congr {f g : String → String} {st : Statement}
    (h : ∀ n ∈ st.names, f n = g n) : st.renamed f = st.renamed g := by
  cases st with
  | declare kind n value p =>
    obtain ⟨hn, hvalue⟩ := List.forall_mem_cons.1 h
    rw [renamed, hn, value.renamed_congr hvalue]; rfl
  | reassign n value p =>
    obtain ⟨hn, hvalue⟩ := List.forall_mem_cons.1 h
    rw [renamed, hn, value.renamed_congr hvalue]; rfl
  | unpack ns c p =>
    obtain ⟨hns, hc⟩ := List.forall_mem_append.1 h
    rw [renamed, List.map_congr_left hns, c.renamed_congr hc]; rfl
  | expr e => exact congrArg Statement.expr (e.renamed_congr h)
  | result value p =>
    cases value with
    | single e =>
      exact congrArg (Statement.result · p) (congrArg Returned.single (e.renamed_congr h))
    | named xs =>
      have hxs : xs.map (Prod.map id (Expr.renamed f)) = xs.map (Prod.map id (Expr.renamed g)) :=
        List.map_congr_left fun x hx => Prod.ext rfl
          (x.2.renamed_congr fun n hn => h n (List.mem_flatMap.2 ⟨x, hx, hn⟩))
      rw [renamed, Returned.renamed, hxs]; rfl

/-! ## Arguments with other values -/

namespace CallOf

variable {ε ε' : Type} (g : ε → ε') {params : List String} {allowExtra : Bool}

theorem put_map (a : Arg ε) (b : BoundArgs ε) (p : ArgPlace) :
    put params (a.map g) (b.map g) p = (put params a b p).map (BoundArgs.map g) := by
  cases p with
  | slot i =>
    have htaken : ((b.map g).slot i).isSome = (b.slot i).isSome := by
      rw [BoundArgs.slot, BoundArgs.slot, BoundArgs.map, List.getElem?_map]
      cases b.slots[i]? with
      | none => rfl
      | some o => cases o <;> rfl
    rw [put, put, htaken]
    split
    · rfl
    · simp [BoundArgs.map, Arg.map, Except.map]
  | extra n =>
    have htaken : (b.map g).extra.any (·.1 == n) = b.extra.any (·.1 == n) := by
      rw [BoundArgs.map, List.any_map]
      rfl
    rw [put, put, htaken]
    split
    · rfl
    · simp [BoundArgs.map, Arg.map, Except.map]

theorem bindFrom_map (c : CallOf ε) (as : List (Arg ε)) (next : Nat) (b : BoundArgs ε) :
    (c.map g).bindFrom params allowExtra (as.map (Arg.map g)) next (b.map g) =
      (c.bindFrom params allowExtra as next b).map (BoundArgs.map g) := by
  induction as generalizing next b with
  | nil => rfl
  | cons a as ih =>
    have hplace : (c.map g).place params allowExtra next (a.map g) =
      c.place params allowExtra next a := rfl
    rw [List.map_cons, bindFrom, bindFrom, hplace]
    cases c.place params allowExtra next a with
    | error e => rfl
    | ok p =>
      show (put params (a.map g) (b.map g) p >>= _) = (put params a b p >>= _).map _
      rw [put_map]
      cases put params a b p with
      | error e => rfl
      | ok b₁ => exact ih _ b₁

/-- Where arguments go does not depend on their values. -/
theorem bind_map (c : CallOf ε) :
    (c.map g).bind params allowExtra = (c.bind params allowExtra).map (BoundArgs.map g) := by
  have hstart : (⟨params.map fun _ => none, []⟩ : BoundArgs ε').slots =
      (params.map fun _ => (none : Option ε)).map (Option.map g) := by
    rw [List.map_map]
    rfl
  have h : (c.map g).bindFrom params allowExtra (c.args.map (Arg.map g)) 0 _ = _ :=
    bindFrom_map g c c.args 0 ⟨params.map fun _ => none, []⟩
  rwa [BoundArgs.map, ← hstart] at h

/-- The same argument of the call with other values. -/
def mapOrigin (c : CallOf ε) (e : { e : ε // ∃ a ∈ c.args, a.value = e }) :
    { e : ε' // ∃ a ∈ (c.map g).args, a.value = e } :=
  ⟨g e.1, let ⟨a, ha, hvalue⟩ := e.2
    ⟨a.map g, List.mem_map_of_mem ha, congrArg g hvalue⟩⟩

theorem attach_map (c : CallOf ε) : (c.map g).attach = c.attach.map (c.mapOrigin g) := by
  have hargs : (c.map g).attach.args = (c.attach.map (c.mapOrigin g)).args := by
    simp only [attach, CallOf.map, List.attach_map, List.map_map]
    rfl
  exact CallOf.mk.injEq .. ▸ ⟨rfl, hargs, rfl⟩

end CallOf

/-! ## Resolution under other names -/

/-- The scope in which every name is another one. -/
def Scope.renamed (f : String → String) (s : Scope) : Scope :=
  { s with names := s.names.map (Prod.map f id) }

/-- New names. Names that are not plain stay. -/
structure Respelling where
  name : String → String
  injective : Function.Injective name
  plain : ∀ n, name n = n ∨ PlainName n ∧ PlainName (name n)

namespace Respelling

variable (r : Respelling)

theorem find?_renamed (s : Scope) (n : String) :
    (s.renamed r.name).find? (r.name n) = s.find? n := by
  have hname : (fun x : String × Binding => x.1 == r.name n) ∘ Prod.map r.name id =
      fun x => x.1 == n := funext fun x => by
    rw [Bool.eq_iff_iff]
    simp [r.injective.eq_iff]
  rw [Scope.find?, Scope.find?, Scope.renamed, List.find?_map, hname]
  cases s.names.find? (·.1 == n) <;> rfl

/-- What comes out under the new names: the value that `g` gives, and the scope with the new names; or
an error at the same position. -/
def Outcome {β γ : Type} (g : β → γ) :
    Except ResolveError (β × Scope) → Except ResolveError (γ × Scope) → Prop
  | .ok (x, s), o => o = .ok (g x, s.renamed r.name)
  | .error e, o => ∃ e', o = .error e' ∧ e'.position = e.position

end Respelling

namespace Resolve

variable {r : Respelling}

/-- The second resolution does under the new names what the first one does. -/
def Follows (r : Respelling) {β γ : Type} (g : β → γ) (m : ResolveM β) (m' : ResolveM γ) : Prop :=
  ∀ s, r.Outcome g (m s) (m' (s.renamed r.name))

namespace Follows

variable {β β' γ γ' : Type} {g : β → β'} {h : γ → γ'} {m : ResolveM β} {m' : ResolveM β'}
variable {f : β → ResolveM γ} {f' : β' → ResolveM γ'}

theorem pure (x : β) : Follows r g (pure x) (pure (g x)) := fun _ => rfl

theorem fail (position : Nat) (fault fault' : ResolveFault) :
    Follows r g (fail position fault) (fail position fault') := fun _ => ⟨_, rfl, rfl⟩

theorem bind (hm : Follows r g m m') (hf : ∀ x, Follows r h (f x) (f' (g x))) :
    Follows r h (m >>= f) (m' >>= f') := by
  intro s
  have hs := hm s
  show r.Outcome h (m s >>= fun p => f p.1 p.2) (m' (s.renamed r.name) >>= fun p => f' p.1 p.2)
  cases hrun : m s with
  | error e =>
    rw [hrun] at hs
    obtain ⟨e', he', hposition⟩ := hs
    rw [he']
    exact ⟨e', rfl, hposition⟩
  | ok p =>
    rw [hrun] at hs
    replace hs : m' _ = .ok _ := hs
    rw [hs]
    exact hf p.1 p.2

/-- The scope is looked at. -/
theorem get {f : Scope → ResolveM γ} {f' : Scope → ResolveM γ'}
    (hf : ∀ s, Follows r h (f s) (f' (s.renamed r.name))) :
    Follows r h (MonadState.get >>= f) (MonadState.get >>= f') := fun s => hf s s

theorem map {k : γ → β} {k' : γ' → β'} {n : ResolveM γ} {n' : ResolveM γ'} (hn : Follows r h n n')
    (hk : ∀ x, k' (h x) = g (k x)) :
    Follows r g (do let x ← n; Pure.pure (k x)) (do let x ← n'; Pure.pure (k' x)) :=
  hn.bind fun x => by rw [hk]; exact pure _

theorem each {xs : List β} {k : β → β'} {f : β → ResolveM γ} {f' : β' → ResolveM γ'}
    (hf : ∀ x ∈ xs, Follows r h (f x) (f' (k x))) :
    Follows r (List.map h) (each f xs) (each f' (xs.map k)) := by
  induction xs with
  | nil => exact pure []
  | cons x xs ih =>
    obtain ⟨hx, hxs⟩ := List.forall_mem_cons.1 hf
    exact hx.bind fun y => (ih hxs).map fun ys => rfl

/-- A list whose elements have results of their own, not renamed. -/
theorem each_id {xs : List β} {k : β → β'} {f : β → ResolveM γ} {f' : β' → ResolveM γ}
    (hf : ∀ x ∈ xs, Follows r id (f x) (f' (k x))) :
    Follows r id (Resolve.each f xs) (Resolve.each f' (xs.map k)) := by
  have h := each hf
  rwa [List.map_id_fun] at h

end Follows

theorem follows_slot (b : Bank) : Follows r id (slot b) (slot b) := fun s => by cases b <;> rfl

theorem follows_handle : Follows r id handle handle := fun _ => rfl

theorem follows_computed (n : Node) : Follows r id (computed n) (computed n) :=
  (follows_slot .computed).map fun _ => rfl

theorem follows_declare (n : String) (position : Nat) (b : Binding) :
    Follows r id (declare n position b) (declare (r.name n) position b) := by
  refine .get fun s => ?_
  rw [r.find?_renamed]
  have hmodify : Follows r (id : PUnit → PUnit)
      (modify fun s : Scope => { s with names := s.names ++ [(n, b)] })
      (modify fun s : Scope => { s with names := s.names ++ [(r.name n, b)] }) := fun s => by
    show Except.ok _ = Except.ok _
    simp [Scope.renamed]
  split
  · exact Follows.bind (g := id) (.fail position _ _) fun _ => hmodify
  · exact hmodify

theorem follows_bind {ε ε' : Type} (g : ε → ε') (c : CallOf ε) (params : List String)
    (allowExtra : Bool) :
    Follows r (BoundArgs.map g) (bind c params allowExtra) (bind (c.map g) params allowExtra) := by
  rw [bind, bind, CallOf.bind_map]
  cases c.bind params allowExtra with
  | ok b => exact .pure b
  | error e => exact fun _ => ⟨e, rfl, rfl⟩

/-! ### Expressions -/

/-- A value at an offset. -/
theorem follows_offset {m m' : ResolveM Node} (offset : Option Node) (hm : Follows r id m m') :
    Follows r id
      (do
        let value ← m
        match offset with
        | none => return value
        | some offset => return .read (← computed value) (some offset))
      (do
        let value ← m'
        match offset with
        | none => return value
        | some offset => return .read (← computed value) (some offset)) := by
  refine hm.bind fun value => ?_
  cases offset with
  | none => exact .pure _
  | some o => exact (follows_computed value).map fun _ => rfl

theorem follows_name (n : String) (position : Nat) (offset : Option Node) :
    Follows r id (name n position offset) (name (r.name n) position offset) := by
  refine .get fun s => ?_
  rw [r.find?_renamed]
  cases s.find? n with
  | some b =>
    cases b with
    | series bank id => exact .pure _
    | plot title => exact .fail _ _ _
  | none =>
    dsimp only
    rcases r.plain n with hsame | ⟨hn, hn'⟩
    · rw [hsame]
      cases Price.ofName? n with
      | some p => exact .pure _
      | none =>
        cases Clock.ofName? n with
        | some c => exact .pure _
        | none =>
          dsimp only
          split
          · exact follows_offset offset (.pure _)
          split
          · exact follows_offset offset (.pure _)
          split <;> exact follows_offset offset (.fail _ _ _)
    -- neither of the two names is built in
    · have htr (m : String) (hm : PlainName m) : m ≠ "ta.tr" := hm.ne_dotted (by decide)
      have hcolor (m : String) (hm : PlainName m) : m.startsWith "color." = false :=
        hm.startsWith (by decide)
      simp only [hn.2.1, hn'.2.1, hn.2.2.1, hn'.2.2.1, if_neg hn.2.2.2, if_neg hn'.2.2.2,
        if_neg (htr _ hn), if_neg (htr _ hn'), hcolor _ hn, hcolor _ hn']
      exact follows_offset offset (.fail _ _ _)

theorem namedSource?_renamed (s : Scope) (e : Expr) :
    namedSource? (s.renamed r.name) (e.renamed r.name) = namedSource? s e := by
  cases e with
  | name n position =>
    simp only [namedSource?, Expr.renamed, r.find?_renamed]
    rcases r.plain n with hsame | ⟨hn, hn'⟩
    · rw [hsame]
    · rw [hn.2.1, hn'.2.1]
  | call c => rw [Expr.renamed_call]; rfl
  | _ => rfl

theorem follows_checkPositional (c : Call) (count : ArgCount) :
    Follows r id (checkPositional c count) (checkPositional (c.renamed r.name) count) := by
  have hnamed : (fun a : Arg Expr => a.name.isSome) ∘ Arg.map (Expr.renamed r.name) =
      fun a => a.name.isSome := rfl
  rw [checkPositional, checkPositional, CallOf.renamed, CallOf.map, List.find?_map, hnamed,
    List.length_map]
  cases c.args.find? (·.name.isSome) with
  | some a => exact .fail _ _ _
  | none =>
    dsimp only [Option.map_none]
    split
    · exact .fail _ _ _
    · exact .pure ()

theorem follows_checkFunction (c : Call) :
    Follows r id (checkFunction c) (checkFunction (c.renamed r.name)) := by
  have hsame : checkFunction (c.renamed r.name) = checkFunction c := rfl
  rw [hsame, checkFunction]
  split
  · exact .fail _ _ _
  split <;> exact .fail _ _ _

/-- The expression is resolved to the same value under the new names. -/
def Kept (r : Respelling) (e : Expr) : Prop := Follows r id (expr e) (expr (e.renamed r.name))

theorem follows_source {e : Expr} (h : Kept r e) :
    Follows r id (source e) (source (e.renamed r.name)) := by
  rw [source, source]
  refine .get fun s => ?_
  rw [namedSource?_renamed]
  cases namedSource? s e with
  | some source => exact .pure source
  | none => exact Follows.bind (g := id) h fun n => follows_computed n

section

variable {c : Call} (hargs : ∀ a ∈ c.args, Kept r a.value)
include hargs

theorem kept_origin (e : { e : Expr // ∃ a ∈ c.args, a.value = e }) : Kept r e.1 := by
  obtain ⟨_, a, ha, rfl⟩ := e
  exact hargs a ha

theorem follows_argument (p : Param) (a : Option { e : Expr // ∃ a ∈ c.args, a.value = e }) :
    Follows r id (argument c p a)
      (argument (c.renamed r.name) p (a.map (c.mapOrigin (Expr.renamed r.name)))) := by
  cases a with
  | none =>
    rw [Option.map_none, argument.eq_def, argument.eq_def]
    cases p.kind with
    | default l => exact .pure _
    | optionalSeries | optionalNumber => exact .pure _
    | series | number => exact .fail _ _ _
  | some e =>
    have he := kept_origin hargs e
    have series : Follows r id (do return Bound.series (← source e.1))
        (do return Bound.series (← source (e.1.renamed r.name))) :=
      (follows_source he).map fun _ => rfl
    have number : Follows r id (do return Bound.number (← expr e.1))
        (do return Bound.number (← expr (e.1.renamed r.name))) :=
      Follows.map he fun _ => rfl
    rw [Option.map_some, argument.eq_def, argument.eq_def]
    cases p.kind with
    | series | optionalSeries => exact series
    | number | optionalNumber | default l => exact number

theorem follows_study : Follows r id (study c) (study (c.renamed r.name)) := by
  rw [study, study]
  have hname : (c.renamed r.name).name = c.name := rfl
  rw [hname, CallOf.renamed, CallOf.attach_map]
  cases Study.ofName? c.name with
  | none => exact .fail _ _ _
  | some st =>
    refine (follows_bind _ _ _ _).bind fun b => ?_
    have hslots : st.params.zip (b.map (c.mapOrigin (Expr.renamed r.name))).slots =
        (st.params.zip b.slots).map (Prod.map id (Option.map (c.mapOrigin _))) :=
      List.zip_map_right ..
    rw [hslots]
    refine (Follows.each_id fun pa _ => follows_argument hargs pa.1 pa.2).bind fun as => ?_
    split
    · exact follows_handle.map fun _ => rfl
    · exact .pure _

theorem follows_positional :
    Follows r id
      (each (fun (a : Arg { e : Expr // ∃ a ∈ c.args, a.value = e }) => expr a.value.1)
        c.attach.args)
      (each (fun (a : Arg { e : Expr // ∃ a ∈ (c.renamed r.name).args, a.value = e }) =>
        expr a.value.1) (c.renamed r.name).attach.args) := by
  rw [CallOf.renamed, CallOf.attach_map]
  exact Follows.each_id fun a _ => kept_origin hargs a.value

theorem follows_call : Follows r id (call c) (call (c.renamed r.name)) := by
  have positional := follows_positional hargs
  have hname : (c.renamed r.name).name = c.name := rfl
  rw [call, call, hname]
  split
  · refine (follows_study hargs).bind fun k => ?_
    dsimp only [id]
    split
    · exact Follows.bind (g := id) (.fail _ _ _) fun _ => .pure _
    · exact .pure _
  dsimp only
  cases MathFn.ofName? c.name with
  | some f =>
    exact (follows_checkPositional c _).bind fun _ => positional.map fun _ => rfl
  | none =>
    dsimp only
    split
    · exact (follows_checkPositional c _).bind fun _ => positional.map fun _ => rfl
    split
    · exact (follows_checkPositional c _).bind fun _ => positional.map fun _ => rfl
    · exact (follows_checkFunction c).bind fun _ => .pure _

end

/-- **Expressions** are resolved to the same values under the new names. -/
theorem follows_expr (e : Expr) : Kept r e := by
  unfold Kept
  cases e with
  | number l => rw [Expr.renamed, expr]; exact .pure _
  | flag b => rw [Expr.renamed, expr]; exact .pure _
  | na => rw [Expr.renamed, expr]; exact .pure _
  | text s => rw [Expr.renamed, expr]; exact .fail _ _ _
  | name n position => rw [Expr.renamed, expr, expr]; exact follows_name n position none
  | history target offset position =>
    have htarget : Follows r id (expr target) (expr (target.renamed r.name)) := follows_expr target
    rw [Expr.renamed, expr, expr]
    refine Follows.bind (g := id) (follows_expr offset) fun o => ?_
    have hcomputed : Follows r id
        (do let value ← expr target; return Node.read (← computed value) (some o))
        (do let value ← expr (target.renamed r.name); return .read (← computed value) (some o)) :=
      htarget.bind fun n => (follows_computed n).map fun _ => rfl
    cases target with
    | name n position => exact follows_name n position (some o)
    | call c => rw [Expr.renamed_call] at hcomputed ⊢; exact hcomputed
    | _ => exact hcomputed
  | unary op operand =>
    rw [Expr.renamed, expr, expr]
    exact Follows.map (follows_expr operand) fun _ => rfl
  | binary op left right =>
    rw [Expr.renamed, expr, expr]
    exact Follows.bind (g := id) (follows_expr left) fun l =>
      Follows.map (follows_expr right) fun _ => rfl
  | ternary cond yes no =>
    rw [Expr.renamed, expr, expr]
    exact Follows.bind (g := id) (follows_expr cond) fun c =>
      Follows.bind (g := id) (follows_expr yes) fun y =>
        Follows.map (follows_expr no) fun _ => rfl
  | call c =>
    rw [Expr.renamed_call, expr, expr]
    exact follows_call fun a ha =>
      have := sizeOf_arg_lt ⟨a, ha, rfl⟩
      follows_expr a.value
termination_by sizeOf e

end Resolve

end BarScript
