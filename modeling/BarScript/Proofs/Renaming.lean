import Mathlib.Data.List.Forall2
import BarScript.Script.Program

/-!
# Renamed programs

A program does not depend on the numbers of its slots and handles. A `Renaming` gives new numbers,
and `Node.Renamed ρ D n n'` says that `n'` is `n` with the numbers that `ρ` gives, and that `n` keeps
to the `Footprint` `D`: it reads, writes and calls only what `D` admits.
-/

namespace BarScript

/-- New numbers for the slots and the handles. -/
structure Renaming where
  slot : Bank × Nat → Bank × Nat
  handle : Nat → Nat
  slot_injective : Function.Injective slot
  handle_injective : Function.Injective handle

/-- The numbers that there are. -/
def Renaming.id : Renaming := ⟨fun a => a, fun h => h, fun _ _ h => h, fun _ _ h => h⟩

/-- What an evaluation may touch: the slots it may read and write, and the handles of its calls. -/
structure Footprint where
  reads : Bank × Nat → Prop
  writes : Bank × Nat → Prop
  calls : Nat → Prop
  reads_of_writes : ∀ a, writes a → reads a

/-- Everything. -/
def Footprint.all : Footprint := ⟨fun _ => True, fun _ => True, fun _ => True, fun _ _ => trivial⟩

mutual

/-- The same expression with new numbers. -/
inductive Node.Renamed (ρ : Renaming) (D : Footprint) : Node → Node → Prop
  | number (l : Literal) : Node.Renamed ρ D (.number l) (.number l)
  | flag (b : Bool) : Node.Renamed ρ D (.flag b) (.flag b)
  | na : Node.Renamed ρ D .na .na
  | read {s s' : Source} {o o' : Option Node} (ho : Node.OffsetRenamed ρ D o o')
      (hs : Source.Renamed ρ D s s') : Node.Renamed ρ D (.read s o) (.read s' o')
  | clock (c : Clock) {o o' : Option Node} (ho : Node.OffsetRenamed ρ D o o') :
      Node.Renamed ρ D (.clock c o) (.clock c o')
  | barIndex : Node.Renamed ρ D .barIndex .barIndex
  | unary (op : UnaryOp) {n n' : Node} (h : Node.Renamed ρ D n n') :
      Node.Renamed ρ D (.unary op n) (.unary op n')
  | binary (op : BinaryOp) {l l' r r' : Node} (hl : Node.Renamed ρ D l l')
      (hr : Node.Renamed ρ D r r') : Node.Renamed ρ D (.binary op l r) (.binary op l' r')
  | ternary {c c' y y' n n' : Node} (hc : Node.Renamed ρ D c c') (hy : Node.Renamed ρ D y y')
      (hn : Node.Renamed ρ D n n') : Node.Renamed ρ D (.ternary c y n) (.ternary c' y' n')
  | study (st : Study) {as as' : List Bound} {handle : Option Nat}
      (has : Bound.AllRenamed ρ D as as') (hcalls : ∀ h, handle = some h → D.calls h) :
      Node.Renamed ρ D (.study ⟨st, as, handle⟩) (.study ⟨st, as', handle.map ρ.handle⟩)
  | math (f : MathFn) {ns ns' : List Node} (h : Node.AllRenamed ρ D ns ns') :
      Node.Renamed ρ D (.math f ns) (.math f ns')
  | isNa {n n' : Node} (h : Node.Renamed ρ D n n') : Node.Renamed ρ D (.isNa n) (.isNa n')
  | nz {n n' r r' : Node} (hn : Node.Renamed ρ D n n') (hr : Node.Renamed ρ D r r') :
      Node.Renamed ρ D (.nz n r) (.nz n' r')

inductive Node.OffsetRenamed (ρ : Renaming) (D : Footprint) : Option Node → Option Node → Prop
  | none : Node.OffsetRenamed ρ D none none
  | some {n n' : Node} (h : Node.Renamed ρ D n n') : Node.OffsetRenamed ρ D (some n) (some n')

/-- A computed series stays one. -/
inductive Source.Renamed (ρ : Renaming) (D : Footprint) : Source → Source → Prop
  | price (p : Price) : Source.Renamed ρ D (.price p) (.price p)
  | slot {bank bank' : Bank} {id id' : Nat} (hslot : ρ.slot (bank, id) = (bank', id'))
      (hreads : D.reads (bank, id)) : Source.Renamed ρ D (.slot bank id) (.slot bank' id')
  | computed {id id' : Nat} {n n' : Node} (hslot : ρ.slot (.computed, id) = (.computed, id'))
      (hwrites : D.writes (.computed, id)) (h : Node.Renamed ρ D n n') :
      Source.Renamed ρ D (.computed id n) (.computed id' n')

inductive Bound.AllRenamed (ρ : Renaming) (D : Footprint) : List Bound → List Bound → Prop
  | nil : Bound.AllRenamed ρ D [] []
  | cons {b b' : Bound} {bs bs' : List Bound} (hb : Bound.Renamed ρ D b b')
      (hbs : Bound.AllRenamed ρ D bs bs') : Bound.AllRenamed ρ D (b :: bs) (b' :: bs')

inductive Bound.Renamed (ρ : Renaming) (D : Footprint) : Bound → Bound → Prop
  | series {s s' : Source} (h : Source.Renamed ρ D s s') :
      Bound.Renamed ρ D (.series s) (.series s')
  | number {n n' : Node} (h : Node.Renamed ρ D n n') : Bound.Renamed ρ D (.number n) (.number n')
  | absent : Bound.Renamed ρ D .absent .absent

inductive Node.AllRenamed (ρ : Renaming) (D : Footprint) : List Node → List Node → Prop
  | nil : Node.AllRenamed ρ D [] []
  | cons {n n' : Node} {ns ns' : List Node} (hn : Node.Renamed ρ D n n')
      (hns : Node.AllRenamed ρ D ns ns') : Node.AllRenamed ρ D (n :: ns) (n' :: ns')

end

theorem Bound.allRenamed_iff {ρ : Renaming} {D : Footprint} {bs bs' : List Bound} :
    Bound.AllRenamed ρ D bs bs' ↔ List.Forall₂ (Bound.Renamed ρ D) bs bs' := by
  constructor
  · intro h
    induction bs generalizing bs' with
    | nil => cases h; exact .nil
    | cons b bs ih => cases h with | cons hb hbs => exact .cons hb (ih hbs)
  · intro h
    induction h with
    | nil => exact .nil
    | cons hb _ ih => exact .cons hb ih

theorem Node.allRenamed_iff {ρ : Renaming} {D : Footprint} {ns ns' : List Node} :
    Node.AllRenamed ρ D ns ns' ↔ List.Forall₂ (Node.Renamed ρ D) ns ns' := by
  constructor
  · intro h
    induction ns generalizing ns' with
    | nil => cases h; exact .nil
    | cons n ns ih => cases h with | cons hn hns => exact .cons hn (ih hns)
  · intro h
    induction h with
    | nil => exact .nil
    | cons hn _ ih => exact .cons hn ih

theorem Node.AllRenamed.take {ρ : Renaming} {D : Footprint} {ns ns' : List Node}
    (h : Node.AllRenamed ρ D ns ns') (i : Nat) : Node.AllRenamed ρ D (ns.take i) (ns'.take i) :=
  Node.allRenamed_iff.2 (List.forall₂_take i (Node.allRenamed_iff.1 h))

/-- The same call with new numbers. -/
structure StudyCallOf.Renamed (ρ : Renaming) (D : Footprint) (k k' : StudyCall) : Prop where
  study : k'.study = k.study
  args : Bound.AllRenamed ρ D k.args k'.args
  handle : k'.handle = k.handle.map ρ.handle
  calls : ∀ h, k.handle = some h → D.calls h

theorem StudyCallOf.Renamed.node {ρ : Renaming} {D : Footprint} {k k' : StudyCall}
    (h : k.Renamed ρ D k') : Node.Renamed ρ D (.study k) (.study k') := by
  obtain ⟨st, as, handle⟩ := k
  obtain ⟨st', as', handle'⟩ := k'
  obtain rfl : st' = st := h.study
  obtain rfl : handle' = handle.map ρ.handle := h.handle
  exact .study st' h.args h.calls

inductive OptionNode.Renamed (ρ : Renaming) (D : Footprint) : OptionNode → OptionNode → Prop
  | text (s : String) : Renamed ρ D (.text s) (.text s)
  | flag (b : Bool) : Renamed ρ D (.flag b) (.flag b)
  | number {n n' : Node} (h : n.Renamed ρ D n') : Renamed ρ D (.number n) (.number n')
  | rgb {ns ns' : List Node} (h : Node.AllRenamed ρ D ns ns') : Renamed ρ D (.rgb ns) (.rgb ns')
  | newColor {base base' : OptionNode} {alpha alpha' : Option Node} (hbase : Renamed ρ D base base')
      (halpha : Node.OffsetRenamed ρ D alpha alpha') :
      Renamed ρ D (.newColor base alpha) (.newColor base' alpha')

/-- Lists of pairs with the same keys and related values. -/
def Keyed {β γ : Type} (R : β → γ → Prop) (xs : List (String × β)) (ys : List (String × γ)) :
    Prop :=
  List.Forall₂ (fun x y => y.1 = x.1 ∧ R x.2 y.2) xs ys

/-- Lists whose elements are in `Before`, but for one pair in `At`, and after it in `After`. -/
inductive OneAt {β γ : Type} (Before At After : β → γ → Prop) : List β → List γ → Prop
  | head {x : β} {y : γ} {xs : List β} {ys : List γ} (h : At x y) (hxs : List.Forall₂ After xs ys) :
      OneAt Before At After (x :: xs) (y :: ys)
  | tail {x : β} {y : γ} {xs : List β} {ys : List γ} (hx : Before x y)
      (h : OneAt Before At After xs ys) : OneAt Before At After (x :: xs) (y :: ys)

theorem OneAt.imp {β γ : Type} {B A F B' A' F' : β → γ → Prop} (hB : ∀ x y, B x y → B' x y)
    (hA : ∀ x y, A x y → A' x y) (hF : ∀ x y, F x y → F' x y) {xs : List β} {ys : List γ}
    (h : OneAt B A F xs ys) : OneAt B' A' F' xs ys := by
  induction h with
  | head h hxs => exact .head (hA _ _ h) (hxs.imp hF)
  | tail hx _ ih => exact .tail (hB _ _ hx) ih

/-- The same for the values of lists of pairs with the same keys. -/
def KeyedAt {β γ : Type} (Before At After : β → γ → Prop) (xs : List (String × β))
    (ys : List (String × γ)) : Prop :=
  OneAt (fun x y => y.1 = x.1 ∧ Before x.2 y.2) (fun x y => y.1 = x.1 ∧ At x.2 y.2)
    (fun x y => y.1 = x.1 ∧ After x.2 y.2) xs ys

theorem rel_getElem? {β γ : Type} {R : β → γ → Prop} {xs : List β} {ys : List γ}
    (h : List.Forall₂ R xs ys) (i : Nat) : Option.Rel R xs[i]? ys[i]? := by
  induction h generalizing i with
  | nil => exact .none
  | cons h _ ih =>
    cases i with
    | zero => exact .some h
    | succ i => exact ih i

theorem StudyCallOf.Renamed.arity {ρ : Renaming} {D : Footprint} {k k' : StudyCall}
    (h : k.Renamed ρ D k') : k'.arity = k.arity := by
  have hthird := rel_getElem? (Bound.allRenamed_iff.1 h.args) 2
  unfold StudyCallOf.arity
  rw [h.study]
  generalize k.args[2]? = third at hthird
  generalize k'.args[2]? = third' at hthird
  cases hthird with
  | none => rfl
  | some hb => cases hb <;> cases k.study <;> rfl

inductive Drawing.Renamed (ρ : Renaming) (D : Footprint) : Drawing → Drawing → Prop
  | plot {n n' : Node} (title : String) {os os' : OptionNodes} (char : Bool) (h : n.Renamed ρ D n')
      (hos : Keyed (OptionNode.Renamed ρ D) os os') :
      Renamed ρ D (.plot n title os char) (.plot n' title os' char)
  | candle {a a' b b' c c' d d' : Node} (title : String) {os os' : OptionNodes} (bar : Bool)
      (ha : a.Renamed ρ D a') (hb : b.Renamed ρ D b') (hc : c.Renamed ρ D c')
      (hd : d.Renamed ρ D d') (hos : Keyed (OptionNode.Renamed ρ D) os os') :
      Renamed ρ D (.candle a b c d title os bar) (.candle a' b' c' d' title os' bar)
  | fill (t u : String) {os os' : OptionNodes} (hos : Keyed (OptionNode.Renamed ρ D) os os') :
      Renamed ρ D (.fill t u os) (.fill t u os')
  | hline {n n' : Node} (title : String) {os os' : OptionNodes} (h : n.Renamed ρ D n')
      (hos : Keyed (OptionNode.Renamed ρ D) os os') :
      Renamed ρ D (.hline n title os) (.hline n' title os')
  | indicator (t u : Option String) (overlay : Option Bool) :
      Renamed ρ D (.indicator t u overlay) (.indicator t u overlay)

inductive Op.Renamed (ρ : Renaming) (D : Footprint) : Op → Op → Prop
  | set {bank bank' : Bank} {id id' : Nat} {n n' : Node}
      (hslot : ρ.slot (bank, id) = (bank', id')) (hwrites : D.writes (bank, id))
      (h : n.Renamed ρ D n') : Renamed ρ D (.set bank id n) (.set bank' id' n')
  | init {bank bank' : Bank} {id id' : Nat} {n n' : Node}
      (hslot : ρ.slot (bank, id) = (bank', id')) (hwrites : D.writes (bank, id))
      (h : n.Renamed ρ D n') : Renamed ρ D (.init bank id n) (.init bank' id' n')
  | unpack {k k' : StudyCall} {ts ts' : List Nat} (hk : k.Renamed ρ D k')
      (hts : List.Forall₂ (fun t t' => ρ.slot (.bindings, t) = (.bindings, t') ∧
        D.writes (.bindings, t)) ts ts') : Renamed ρ D (.unpack k ts) (.unpack k' ts')
  | eval {n n' : Node} (h : n.Renamed ρ D n') : Renamed ρ D (.eval n) (.eval n')
  | draw {d d' : Drawing} (h : d.Renamed ρ D d') : Renamed ρ D (.draw d) (.draw d')

inductive Result.Renamed (ρ : Renaming) (D : Footprint) : Result → Result → Prop
  | single {n n' : Node} (h : n.Renamed ρ D n') : Renamed ρ D (.single n) (.single n')
  | named {fs fs' : List (String × Node)} (h : Keyed (Node.Renamed ρ D) fs fs') :
      Renamed ρ D (.named fs) (.named fs')

/-! ## Programs as they are -/

mutual

theorem Node.renamed_id (n : Node) : n.Renamed .id .all n := by
  cases n with
  | number l => exact .number l
  | flag b => exact .flag b
  | na => exact .na
  | read s o => exact .read (Node.offset_renamed_id o) s.renamed_id
  | clock c o => exact .clock c (Node.offset_renamed_id o)
  | barIndex => exact .barIndex
  | unary op n => exact .unary op n.renamed_id
  | binary op l r => exact .binary op l.renamed_id r.renamed_id
  | ternary c y n => exact .ternary c.renamed_id y.renamed_id n.renamed_id
  | study c =>
    obtain ⟨st, as, handle⟩ := c
    have h : Node.Renamed .id .all (.study ⟨st, as, handle⟩) _ :=
      .study st (Bound.all_renamed_id as) fun _ _ => trivial
    rwa [show handle.map Renaming.id.handle = handle from Option.map_id_apply] at h
  | math f ns => exact .math f (Node.all_renamed_id ns)
  | isNa n => exact .isNa n.renamed_id
  | nz n r => exact .nz n.renamed_id r.renamed_id

theorem Node.offset_renamed_id (o : Option Node) : Node.OffsetRenamed .id .all o o := by
  cases o with
  | none => exact .none
  | some n => exact .some n.renamed_id

theorem Source.renamed_id (s : Source) : s.Renamed .id .all s := by
  cases s with
  | price p => exact .price p
  | slot bank id => exact .slot rfl trivial
  | computed id n => exact .computed rfl trivial n.renamed_id

theorem Bound.all_renamed_id (bs : List Bound) : Bound.AllRenamed .id .all bs bs := by
  cases bs with
  | nil => exact .nil
  | cons b bs => exact .cons b.renamed_id (Bound.all_renamed_id bs)

theorem Bound.renamed_id (b : Bound) : b.Renamed .id .all b := by
  cases b with
  | series s => exact .series s.renamed_id
  | number n => exact .number n.renamed_id
  | absent => exact .absent

theorem Node.all_renamed_id (ns : List Node) : Node.AllRenamed .id .all ns ns := by
  cases ns with
  | nil => exact .nil
  | cons n ns => exact .cons n.renamed_id (Node.all_renamed_id ns)

end

theorem keyed_refl {β : Type} {R : β → β → Prop} (h : ∀ x, R x x) (xs : List (String × β)) :
    Keyed R xs xs :=
  List.forall₂_same.2 fun _ _ => ⟨rfl, h _⟩

theorem StudyCallOf.renamed_id (k : StudyCall) : k.Renamed .id .all k :=
  ⟨rfl, Bound.all_renamed_id _, Option.map_id_apply.symm, fun _ _ => trivial⟩

theorem OptionNode.renamed_id (o : OptionNode) : o.Renamed .id .all o := by
  induction o with
  | text s => exact .text s
  | flag b => exact .flag b
  | number n => exact .number n.renamed_id
  | rgb ns => exact .rgb (Node.all_renamed_id ns)
  | newColor base alpha ih => exact .newColor ih (Node.offset_renamed_id alpha)

theorem Drawing.renamed_id (d : Drawing) : d.Renamed .id .all d := by
  have options := keyed_refl OptionNode.renamed_id
  cases d with
  | plot n title os char => exact .plot title char n.renamed_id (options os)
  | candle a b c d title os bar =>
    exact .candle title bar a.renamed_id b.renamed_id c.renamed_id d.renamed_id (options os)
  | fill t u os => exact .fill t u (options os)
  | hline n title os => exact .hline title n.renamed_id (options os)
  | indicator t u overlay => exact .indicator t u overlay

theorem Op.renamed_id (o : Op) : o.Renamed .id .all o := by
  cases o with
  | set bank id n => exact .set rfl trivial n.renamed_id
  | init bank id n => exact .init rfl trivial n.renamed_id
  | unpack k ts => exact .unpack k.renamed_id (List.forall₂_same.2 fun _ _ => ⟨rfl, trivial⟩)
  | eval n => exact .eval n.renamed_id
  | draw d => exact .draw d.renamed_id

theorem Result.renamed_id (r : Result) : r.Renamed .id .all r := by
  cases r with
  | single n => exact .single n.renamed_id
  | named fs => exact .named (keyed_refl Node.renamed_id fs)

end BarScript
