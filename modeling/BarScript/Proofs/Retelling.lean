import BarScript.Proofs.Arguments
import BarScript.Script.Study
import BarScript.Script.Tree

/-!
# Scripts in which an argument is given a name

`Expr.Retold v x x'`: the expression `x'` is `x` at other positions, and the name `v` is not in it.
`Expr.Naming v e past x x'`: in `x'` one indicator call reads the name `v` where it has the series
argument `e` in `x`; the call stands where evaluation reaches it at every bar, unless `past` holds
and it is in the target of a history access. `NamedBefore v e past ss ss'` says of two scripts that
the second one is the first with `v = e` before the statement of the call and `v` in the call.
-/

namespace BarScript

mutual

/-- The same expression at other positions, without the name `v`. -/
inductive Expr.Retold (v : String) : Expr → Expr → Prop
  | number (l : Literal) : Expr.Retold v (.number l) (.number l)
  | flag (b : Bool) : Expr.Retold v (.flag b) (.flag b)
  | text (s : String) : Expr.Retold v (.text s) (.text s)
  | na : Expr.Retold v .na .na
  | name {n : String} (hn : n ≠ v) (p q : Nat) : Expr.Retold v (.name n p) (.name n q)
  | history {t t' o o' : Expr} (ht : Expr.Retold v t t') (ho : Expr.Retold v o o') (p q : Nat) :
      Expr.Retold v (.history t o p) (.history t' o' q)
  | unary (op : UnaryOp) {x x' : Expr} (h : Expr.Retold v x x') :
      Expr.Retold v (.unary op x) (.unary op x')
  | binary (op : BinaryOp) {l l' r r' : Expr} (hl : Expr.Retold v l l') (hr : Expr.Retold v r r') :
      Expr.Retold v (.binary op l r) (.binary op l' r')
  | ternary {c c' y y' n n' : Expr} (hc : Expr.Retold v c c') (hy : Expr.Retold v y y')
      (hn : Expr.Retold v n n') : Expr.Retold v (.ternary c y n) (.ternary c' y' n')
  | call (name : String) {as as' : List (Arg Expr)} (has : Arg.AllRetold v as as') (p q : Nat) :
      Expr.Retold v (.call ⟨name, as, p⟩) (.call ⟨name, as', q⟩)

inductive Arg.AllRetold (v : String) : List (Arg Expr) → List (Arg Expr) → Prop
  | nil : Arg.AllRetold v [] []
  | cons (name : Option String) {x x' : Expr} (hx : Expr.Retold v x x') (p q : Nat)
      {as as' : List (Arg Expr)} (has : Arg.AllRetold v as as') :
      Arg.AllRetold v (⟨name, x, p⟩ :: as) (⟨name, x', q⟩ :: as')

end

theorem Arg.AllRetold.forall₂ {v : String} {as as' : List (Arg Expr)}
    (h : Arg.AllRetold v as as') : List.Forall₂ (Arg.Rel (Expr.Retold v)) as as' := by
  induction as generalizing as' with
  | nil => cases h; exact .nil
  | cons a as ih => cases h with | cons name hx p q has => exact .cons ⟨rfl, hx⟩ (ih has)

theorem Expr.Retold.args {v : String} {c c' : Call} (h : (Expr.call c).Retold v (.call c')) :
    c'.name = c.name ∧ List.Forall₂ (Arg.Rel (Expr.Retold v)) c.args c'.args := by
  cases h with
  | call name has p q => exact ⟨rfl, has.forall₂⟩

/-- The parameter that an argument of a call is for, when others come before it. -/
def Study.param? (st : Study) (before : List (Arg Expr)) (name : Option String) : Option Param :=
  match name with
  | some n => st.params.find? (·.name == n)
  | none => st.params[before.countP (·.name.isNone)]?

/-- The parameter takes a series. -/
def Param.TakesSeries (p : Param) : Prop := p.kind = .series ∨ p.kind = .optionalSeries

mutual

/-- One indicator call reads the name `v` instead of its series argument `e`. -/
inductive Expr.Naming (v : String) (e : Expr) : Bool → Expr → Expr → Prop
  | unary {past : Bool} (op : UnaryOp) {x x' : Expr} (h : Expr.Naming v e past x x') :
      Expr.Naming v e past (.unary op x) (.unary op x')
  | left {past : Bool} (op : BinaryOp) {l l' r r' : Expr} (h : Expr.Naming v e past l l')
      (hr : Expr.Retold v r r') : Expr.Naming v e past (.binary op l r) (.binary op l' r')
  | right {past : Bool} {op : BinaryOp} (hop : op ≠ .and ∧ op ≠ .or) {l l' r r' : Expr}
      (hl : Expr.Retold v l l') (h : Expr.Naming v e past r r') :
      Expr.Naming v e past (.binary op l r) (.binary op l' r')
  | cond {past : Bool} {c c' y y' n n' : Expr} (h : Expr.Naming v e past c c')
      (hy : Expr.Retold v y y') (hn : Expr.Retold v n n') :
      Expr.Naming v e past (.ternary c y n) (.ternary c' y' n')
  | offset {past : Bool} {t t' o o' : Expr} (ht : Expr.Retold v t t')
      (h : Expr.Naming v e past o o') (p q : Nat) :
      Expr.Naming v e past (.history t o p) (.history t' o' q)
  | target {past : Bool} {t t' o o' : Expr} (ho : Expr.Retold v o o')
      (h : Expr.Naming v e past t t') (p q : Nat) :
      Expr.Naming v e true (.history t o p) (.history t' o' q)
  | argument {past : Bool} {name : String} (hname : name ≠ "nz") {as as' : List (Arg Expr)}
      (h : Arg.OneNaming v e past as as') (p q : Nat) :
      Expr.Naming v e past (.call ⟨name, as, p⟩) (.call ⟨name, as', q⟩)
  | operand {past : Bool} (name : Option String) {x x' : Expr} (h : Expr.Naming v e past x x')
      (p q : Nat) {as as' : List (Arg Expr)} (has : Arg.AllRetold v as as') (p' q' : Nat) :
      Expr.Naming v e past (.call ⟨"nz", ⟨name, x, p⟩ :: as, p'⟩)
        (.call ⟨"nz", ⟨name, x', q⟩ :: as', q'⟩)
  | here {name : String} {st : Study} (hst : Study.ofName? name = some st) {k : Option String}
      {param : Param} {pre pre' post post' : List (Arg Expr)} (hparam : st.param? pre k = some param)
      (hseries : param.TakesSeries) (hpre : Arg.AllRetold v pre pre')
      (hpost : Arg.AllRetold v post post') (p q p' q' r : Nat) :
      Expr.Naming v e false (.call ⟨name, pre ++ ⟨k, e, p⟩ :: post, p'⟩)
        (.call ⟨name, pre' ++ ⟨k, .name v r, q⟩ :: post', q'⟩)

inductive Arg.OneNaming (v : String) (e : Expr) : Bool → List (Arg Expr) → List (Arg Expr) → Prop
  | head {past : Bool} (name : Option String) {x x' : Expr} (h : Expr.Naming v e past x x')
      (p q : Nat) {as as' : List (Arg Expr)} (has : Arg.AllRetold v as as') :
      Arg.OneNaming v e past (⟨name, x, p⟩ :: as) (⟨name, x', q⟩ :: as')
  | tail {past : Bool} (name : Option String) {x x' : Expr} (hx : Expr.Retold v x x') (p q : Nat)
      {as as' : List (Arg Expr)} (h : Arg.OneNaming v e past as as') :
      Arg.OneNaming v e past (⟨name, x, p⟩ :: as) (⟨name, x', q⟩ :: as')

end

inductive Returned.Retold (v : String) : Returned → Returned → Prop
  | single {x x' : Expr} (h : x.Retold v x') : Retold v (.single x) (.single x')
  | named {xs xs' : List (String × Expr)} (h : Keyed (Expr.Retold v) xs xs') :
      Retold v (.named xs) (.named xs')

/-- The same statement at another position, without the name `v`. -/
inductive Statement.Retold (v : String) : Statement → Statement → Prop
  | declare (kind : DeclKind) {n : String} (hn : n ≠ v) {x x' : Expr} (h : x.Retold v x')
      (p q : Nat) : Retold v (.declare kind n x p) (.declare kind n x' q)
  | reassign {n : String} (hn : n ≠ v) {x x' : Expr} (h : x.Retold v x') (p q : Nat) :
      Retold v (.reassign n x p) (.reassign n x' q)
  | unpack {ns : List String} (hns : v ∉ ns) {c c' : Call}
      (h : (Expr.call c).Retold v (.call c')) (p q : Nat) :
      Retold v (.unpack ns c p) (.unpack ns c' q)
  | expr {x x' : Expr} (h : x.Retold v x') : Retold v (.expr x) (.expr x')
  | result {r r' : Returned} (h : r.Retold v r') (p q : Nat) : Retold v (.result r p) (.result r' q)

inductive Returned.Naming (v : String) (e : Expr) (past : Bool) : Returned → Returned → Prop
  | single {x x' : Expr} (h : Expr.Naming v e past x x') : Naming v e past (.single x) (.single x')
  | named {xs xs' : List (String × Expr)}
      (h : KeyedAt (Expr.Retold v) (Expr.Naming v e past) (Expr.Retold v) xs xs') :
      Naming v e past (.named xs) (.named xs')

/-- A statement with the call. -/
inductive Statement.Naming (v : String) (e : Expr) (past : Bool) : Statement → Statement → Prop
  | declare {n : String} (hn : n ≠ v) {x x' : Expr} (h : Expr.Naming v e past x x') (p q : Nat) :
      Naming v e past (.declare .binding n x p) (.declare .binding n x' q)
  | reassign {n : String} (hn : n ≠ v) {x x' : Expr} (h : Expr.Naming v e past x x') (p q : Nat) :
      Naming v e past (.reassign n x p) (.reassign n x' q)
  | unpack {ns : List String} (hns : v ∉ ns) {c c' : Call}
      (h : Expr.Naming v e past (.call c) (.call c')) (p q : Nat) :
      Naming v e past (.unpack ns c p) (.unpack ns c' q)
  | expr {x x' : Expr} (h : Expr.Naming v e past x x') : Naming v e past (.expr x) (.expr x')
  | result {r r' : Returned} (h : r.Naming v e past r') (p q : Nat) :
      Naming v e past (.result r p) (.result r' q)

/-- The second script gives `e` the name `v` before the statement in which it is used. -/
structure NamedBefore (v : String) (e : Expr) (past : Bool) (ss ss' : List Statement) : Prop where
  not_bare : ∀ n p, e ≠ .name n p
  split : ∃ pre st post pre' e' p st' post', ss = pre ++ st :: post ∧
    ss' = pre' ++ .declare .binding v e' p :: st' :: post' ∧
    List.Forall₂ (Statement.Retold v) pre pre' ∧ e.Retold v e' ∧ st.Naming v e past st' ∧
    List.Forall₂ (Statement.Retold v) post post'

end BarScript
