import BarScript.Proofs.NamedCall
import BarScript.Proofs.Retold

/-!
# Statements with a named argument

A statement in which the argument of a call is given a name becomes an instruction, or a result, in
which the series of the argument is hoisted (`passes_statement`). Among drawings, the series is in a
value or in an option, since titles stand in the script.
-/

namespace BarScript

theorem BoundArgs.Holed.slot_ne {ε ε' : Type} {R : ε → ε' → Prop} {x : ε} {y : ε'}
    {place : ArgPlace} {b : BoundArgs ε} {b' : BoundArgs ε'} (h : BoundArgs.Holed R x y place b b')
    {i : Nat} (hi : place ≠ .slot i) : Option.Rel R (b.slot i) (b'.slot i) := by
  have join {o : Option (Option ε)} {o' : Option (Option ε')} (h : Option.Rel (Option.Rel R) o o') :
      Option.Rel R o.join o'.join := by
    cases h with
    | none => exact .none
    | some h => exact h
  cases h with
  | slot j hslots _ => exact join (hslots.rel_getElem? fun hij => hi (congrArg _ hij.symm))
  | extra name k hslots _ => exact join (rel_getElem? hslots i)

theorem BoundArgs.Holed.slot_eq {ε ε' : Type} {R : ε → ε' → Prop} {x : ε} {y : ε'} {i : Nat}
    {b : BoundArgs ε} {b' : BoundArgs ε'} (h : BoundArgs.Holed R x y (.slot i) b b') :
    b.slot i = some x ∧ b'.slot i = some y := by
  cases h with
  | slot _ hslots _ =>
    obtain ⟨hx, hy⟩ := hslots.getElem?
    rw [BoundArgs.slot, BoundArgs.slot, hx, hy]
    exact ⟨rfl, rfl⟩

theorem Node.AllHoisted.length_eq {ρ : Renaming} {H : Hoisting ρ} {ns ns' : List Node}
    {past : Bool} (h : Node.AllHoisted H past ns ns') : ns'.length = ns.length := by
  induction ns generalizing ns' with
  | nil => cases h
  | cons n ns ih =>
    cases h with
    | head _ hns => exact congrArg Nat.succ (Node.allRenamed_iff.1 hns).length_eq.symm
    | tail _ h => exact congrArg Nat.succ (ih h)

section

variable {β γ : Type} {R : β → γ → Prop}

theorem OneAt.append {B A F : β → γ → Prop} {xs zs : List β} {ys ws : List γ}
    (h : OneAt B A F xs ys) (hrest : List.Forall₂ F zs ws) : OneAt B A F (xs ++ zs) (ys ++ ws) := by
  induction h with
  | head h hxs => exact .head h (List.rel_append hxs hrest)
  | tail hx _ ih => exact .tail hx ih

theorem OneAt.prepend {B A F : β → γ → Prop} {xs zs : List β} {ys ws : List γ}
    (hxs : List.Forall₂ B xs ys) (h : OneAt B A F zs ws) : OneAt B A F (xs ++ zs) (ys ++ ws) := by
  induction hxs with
  | nil => exact h
  | cons hx _ ih => exact .tail hx ih

theorem oneAt_range {B A F : Nat → Nat → Prop} {j n : Nat} (hj : j < n)
    (hB : ∀ i, i ≠ j → B i i) (hA : A j j) (hF : ∀ i, i ≠ j → F i i) :
    OneAt B A F (List.range n) (List.range n) := by
  obtain ⟨k, rfl⟩ := Nat.exists_eq_add_of_lt hj
  rw [Nat.add_assoc, List.range_add, List.range_succ_eq_map, List.map_cons]
  refine OneAt.prepend (List.forall₂_same.2 fun i hi => hB i ?_) (.head hA ?_)
  · exact Nat.ne_of_lt (List.mem_range.1 hi)
  · refine List.forall₂_same.2 fun i hi => hF i ?_
    obtain ⟨_, hm, rfl⟩ := List.mem_map.1 hi
    obtain ⟨m, -, rfl⟩ := List.mem_map.1 hm
    omega

/-- The pair is among what is left, if it is not dropped. -/
theorem Around.drop {i n : Nat} {x : β} {y : γ} {xs : List β} {ys : List γ}
    (h : Around R i x y xs ys) (hn : n ≤ i) : Around R (i - n) x y (xs.drop n) (ys.drop n) := by
  obtain ⟨pre, post, pre', post', rfl, rfl, rfl, hpre, hpost⟩ := h
  refine ⟨pre.drop n, post, pre'.drop n, post', ?_, ?_, by simp, List.forall₂_drop n hpre, hpost⟩
  · rw [List.drop_append_of_le_length hn]
  · rw [List.drop_append_of_le_length (hpre.length_eq ▸ hn)]

/-- What is left is related one by one, if the pair is dropped. -/
theorem Around.drop_past {i n : Nat} {x : β} {y : γ} {xs : List β} {ys : List γ}
    (h : Around R i x y xs ys) (hn : i < n) : List.Forall₂ R (xs.drop n) (ys.drop n) := by
  obtain ⟨pre, post, pre', post', rfl, rfl, rfl, hpre, hpost⟩ := h
  have hlength := hpre.length_eq
  obtain ⟨k, rfl⟩ := Nat.exists_eq_add_of_lt hn
  rw [List.drop_append, List.drop_append, List.drop_of_length_le (show pre.length ≤ _ by omega),
    List.drop_of_length_le (show pre'.length ≤ _ by omega), ← hlength, Nat.add_assoc,
    Nat.add_sub_cancel_left, List.nil_append, List.nil_append, List.drop_succ_cons,
    List.drop_succ_cons]
  exact List.forall₂_drop k hpost

end

namespace Resolve

variable {v : String} {e : Expr} {past : Bool}

/-! ## Options -/

theorem passes_drawnPositional {i : Nat} {a a' : Arg Expr} {c c' : Call}
    (h : CallsAt v i a a' c c') (ha : Hands v e past a.value a'.value) (count : ArgCount) :
    Passes v e (fun S ns ns' => Node.AllHoisted S.H past ns ns' ∧ count.admits ns.length = true)
      (positional c count) (positional c' count) := by
  refine .afterFree (h.free_checkPositional count) fun _ _ hcount => ?_
  have heach : Passes v e (fun S => OneAt (Node.Renamed S.ρ S.H.others) (Node.Hoisted S.H past)
      (Node.Renamed S.ρ .all)) (each (fun a => expr a.value) c.args)
      (each (fun a => expr a.value) c'.args) := by
    refine .each (h.args.oneAt.imp ?_ ?_ ?_)
    · exact fun _ _ hx S => mirrors_expr _ hx.2
    · rintro _ _ ⟨rfl, rfl⟩
      exact ha.passes
    · exact fun _ _ hx S => mirrors_expr _ hx.2
  refine (heach.yielding (yields_each_length c.args)).mono fun S ns ns' hns => ?_
  exact ⟨Node.allHoisted_of_oneAt hns.2, hns.1 ▸ hcount⟩

/-- The expressions as values of options. -/
structure Offers (v : String) (e : Expr) (past : Bool) (x x' : Expr) : Prop extends
    Hands v e past x x' where
  offered : Passes v e (fun S o o' => o.Hoisted S.H past o') (option x) (option x')

/-- A color whose channels or parts are given. -/
theorem passes_color {i : Nat} {a a' : Arg Expr} {c c' : Call} (h : CallsAt v i a a' c c')
    (ha : Offers v e past a.value a'.value)
    (number : Passes v e (fun S n n' => n.Hoisted S.H past n') (expr (.call c)) (expr (.call c'))) :
    Passes v e (fun S o o' => o.Hoisted S.H past o') (option (.call c)) (option (.call c')) := by
  rw [option.eq_def, option.eq_def]
  dsimp only
  rw [h.name]
  split
  · refine (passes_drawnPositional h ha.toHands ⟨3, some 4⟩).map fun S ns ns' hns => .rgb ?_
    obtain ⟨hns, hcount⟩ := hns
    have hfew : ns.length ≤ 4 := by
      simp only [ArgCount.admits, Option.all_some, Bool.and_eq_true, decide_eq_true_eq] at hcount
      exact hcount.2
    rwa [List.take_of_length_le hfew, List.take_of_length_le (hns.length_eq ▸ hfew)]
  split
  · obtain ⟨b, b', hargs, hb, hvalue, hb', hvalue'⟩ := CallOf.around_attach h.args
    refine .afterFree (free_bind_holed hargs (hb'.trans (h.label.trans hb.symm)) _ _) ?_
    rintro r r' ⟨place, hplace, hholed⟩
    cases place with
    | extra name => exact (place_ne_extra hplace).elim
    | slot j =>
      have hj : j < 2 := CallOf.place_lt hplace
      obtain ⟨hslot, hslot'⟩ := hholed.slot_eq
      obtain rfl | rfl : j = 0 ∨ j = 1 := by omega
      · have halpha := hholed.slot_ne (by decide : ArgPlace.slot 0 ≠ .slot 1)
        rw [hslot, hslot']
        dsimp only
        rw [hvalue, hvalue']
        generalize r.slot 1 = x at halpha
        generalize r'.slot 1 = x' at halpha
        cases halpha with
        | none => exact ha.offered.first fun S _ _ ho => .pure (.base ho .none)
        | some hx =>
          exact ha.offered.first fun S _ _ ho => (mirrors_expr _ hx).map fun _ _ hn =>
            .base ho (.some hn)
      · have hbase := hholed.slot_ne (by decide : ArgPlace.slot 1 ≠ .slot 0)
        generalize r.slot 0 = x at hbase
        generalize r'.slot 0 = x' at hbase
        cases hbase with
        | none => exact .absurd fun _ => yields_fail
        | some hx =>
          dsimp only
          rw [hslot, hslot']
          dsimp only
          rw [hvalue, hvalue']
          exact .middle (fun S => mirrors_option _ hx) ha.passes fun S _ _ _ _ ho hn =>
            .pure (.alpha ho hn)
  · exact number.map fun S _ _ hn => .number hn

theorem passes_plainCall {name : String} {as as' : List (Arg Expr)} {p q : Nat}
    (hname : name ≠ "color.rgb" ∧ name ≠ "color.new")
    (h : Passes v e (fun S n n' => n.Hoisted S.H past n') (expr (.call ⟨name, as, p⟩))
      (expr (.call ⟨name, as', q⟩))) :
    Passes v e (fun S o o' => o.Hoisted S.H past o') (option (.call ⟨name, as, p⟩))
      (option (.call ⟨name, as', q⟩)) := by
  rw [option.eq_def, option.eq_def]
  dsimp only
  rw [if_neg hname.1, if_neg hname.2, if_neg hname.1, if_neg hname.2]
  exact h.map fun S _ _ hn => .number hn

/-- **An option** in which an argument is given a name. -/
theorem passes_option (he : ∀ n p, e ≠ .name n p) {x x' : Expr} (h : Expr.Naming v e past x x') :
    Passes v e (fun S o o' => o.Hoisted S.H past o') (option x) (option x') := by
  induction hsize : sizeOf x using Nat.strong_induction_on generalizing x x' with
  | _ size ih =>
    have hexpr := passes_expr he x h
    cases h with
    | @argument _ name hname as as' h p q =>
      obtain ⟨i, a, a', hargs, hlabel, ha, hands⟩ := hands_args he as h
      have hlt : sizeOf a.value < sizeOf (CallOf.mk name as p) :=
        sizeOf_arg_lt ⟨a, List.mem_of_getElem? hargs.getElem?.1, rfl⟩
      have hoption := ih (sizeOf a.value) (by rw [← hsize, Expr.call.sizeOf_spec]; omega) ha rfl
      exact passes_color ⟨rfl, hargs, hlabel⟩ ⟨hands, hoption⟩ hexpr
    | operand name h p q has p' q' => exact passes_plainCall (by decide) hexpr
    | here hst hparam hseries hpre hpost p q p' q' r =>
      refine passes_plainCall ⟨?_, ?_⟩ hexpr
      · rintro rfl
        cases hst
      · rintro rfl
        cases hst
    | _ =>
      rw [option.eq_def, option.eq_def]
      exact hexpr.map fun S _ _ hn => .number hn

/-! ## Drawings -/

section

variable {R : Expr → Expr → Prop} {x y : Expr} {b b' : BoundArgs Expr}

theorem given_keyedAt {p : String} {xs ys : List (String × Option Expr)}
    (h : OneAt (fun a b => b.1 = a.1 ∧ Option.Rel R a.2 b.2)
      (fun a b => a = (p, some x) ∧ b = (p, some y)) (fun a b => b.1 = a.1 ∧ Option.Rel R a.2 b.2)
      xs ys) :
    KeyedAt R (fun a b => a = x ∧ b = y) R (xs.filterMap given) (ys.filterMap given) := by
  induction h with
  | head h hxs =>
    obtain ⟨rfl, rfl⟩ := h
    exact .head ⟨rfl, rfl, rfl⟩ (given_keyed hxs)
  | @tail a b xs ys hab _ ih =>
    obtain ⟨name, slot⟩ := a
    obtain ⟨name', slot'⟩ := b
    obtain ⟨rfl, hslot⟩ := hab
    cases hslot with
    | none => exact ih
    | some hx => exact .tail ⟨rfl, hx⟩ ih

/-- The pair is among the options, if it does not come before them. -/
theorem optionArgs_keyedAt {place : ArgPlace} (h : BoundArgs.Holed R x y place b b')
    {params : List String} {first : Nat}
    (hplace : ∀ i, place = .slot i → first ≤ i ∧ i < params.length) :
    KeyedAt R (fun a b => a = x ∧ b = y) R (optionArgs params b first)
      (optionArgs params b' first) := by
  rw [optionArgs_eq, optionArgs_eq]
  cases h with
  | slot i hslots hextra =>
    obtain ⟨hfirst, hi⟩ := hplace i rfl
    have hparam : (params.drop first)[i - first]? = some params[i] := by
      rw [List.getElem?_drop, Nat.add_sub_cancel' hfirst, List.getElem?_eq_getElem hi]
    exact OneAt.append (given_keyedAt ((hslots.drop hfirst).zip hparam)) hextra
  | extra name k hslots hextra =>
    refine OneAt.prepend (given_keyed (forall₂_zip (List.forall₂_drop first hslots) _)) ?_
    refine hextra.oneAt.imp (fun _ _ h => h) ?_ fun _ _ h => h
    rintro _ _ ⟨rfl, rfl⟩
    exact ⟨rfl, rfl, rfl⟩

/-- The options are related, if the pair comes before them. -/
theorem optionArgs_keyed_past {i : Nat} (h : BoundArgs.Holed R x y (.slot i) b b')
    (params : List String) {first : Nat} (hi : i < first) :
    Keyed R (optionArgs params b first) (optionArgs params b' first) := by
  rw [optionArgs_eq, optionArgs_eq]
  cases h with
  | slot _ hslots hextra =>
    exact List.rel_append (given_keyed (forall₂_zip (hslots.drop_past hi) _)) hextra

end

/-- The series is in an option of a drawing. -/
theorem passes_options {x x' : Expr} (hx : Offers v e past x x') {place : ArgPlace}
    {r r' : BoundArgs Expr} (h : BoundArgs.Holed (Expr.Retold v) x x' place r r') {p : List String}
    {k : Nat} (hplace : ∀ i, place = .slot i → k ≤ i ∧ i < p.length) :
    Passes v e (fun S os os' => OptionNodes.Hoisted S.H past os os') (options (optionArgs p r k))
      (options (optionArgs p r' k)) := by
  refine .each ((optionArgs_keyedAt h hplace).imp ?_ ?_ ?_)
  · exact fun _ _ hx S => (mirrors_option _ hx.2).map fun _ _ ho => ⟨hx.1, ho⟩
  · rintro ⟨name, _⟩ ⟨_, _⟩ ⟨rfl, rfl, rfl⟩
    exact hx.offered.map fun S _ _ ho => ⟨rfl, ho⟩
  · exact fun _ _ hx S => (mirrors_option _ hx.2).map fun _ _ ho => ⟨hx.1, ho⟩

/-- The values and the title of a drawing. -/
def heading (c : Call) (params : List String) (b : BoundArgs Expr) (n : Nat) (default : String) :
    ResolveM (List Node × String) := do
  let values ← each (requiredValue c params b) (List.range n)
  let title ← title b n default
  return (values, title)

/-- What a drawing of `n` values consists of. -/
def drawn (c : Call) (params : List String) (n : Nat) (default : String) :
    ResolveM (List Node × String × OptionNodes) := do
  let b ← bind c params true
  let head ← heading c params b n default
  let options ← options (optionArgs params b (n + 1))
  return (head.1, head.2, options)

/-- The names of the parameters of a plot. -/
def plotParams (char : Bool) : List String :=
  if char then ["series", "title", "char", "location", "color"]
  else ["series", "title", "color", "linewidth", "style"]

theorem plot_eq (c : Call) (char : Bool) : plot c char = (do
    let d ← drawn c (plotParams char) 1 "Plot"
    return (.plot (d.1.headD .na) d.2.1 d.2.2 char, d.2.1)) := by
  simp only [plot, drawn, heading, plotParams, each, List.range, List.range.loop, bind_assoc,
    pure_bind, List.headD]

theorem candle_eq (c : Call) (bar : Bool) : candle c bar = (do
    let d ← drawn c ["open", "high", "low", "close", "title", "color"] 4
      (if bar then "Bars" else "Candles")
    return .candle (d.1.getD 0 .na) (d.1.getD 1 .na) (d.1.getD 2 .na) (d.1.getD 3 .na) d.2.1 d.2.2
      bar) := by
  simp only [candle, drawn, heading, each, List.range, List.range.loop, bind_assoc, pure_bind]
  rfl

theorem hline_eq (c : Call) : hline c = (do
    let d ← drawn c ["price", "title", "color", "linestyle", "linewidth"] 1 "HLine"
    return .hline (d.1.headD .na) d.2.1 d.2.2) := by
  simp only [hline, drawn, heading, each, List.range, List.range.loop, bind_assoc, pure_bind,
    List.headD]

instance (c : Call) (params : List String) (b : BoundArgs Expr) (n : Nat) (default : String) :
    Keeps (heading c params b n default) := by
  unfold heading
  infer_instance

section

variable {c c' : Call} {params : List String} {r r' : BoundArgs Expr} {x x' : Expr} {n : Nat}

/-- The series is in one of the values. -/
theorem passes_heading {j : Nat} (hx : Hands v e past x x')
    (h : BoundArgs.Holed (Expr.Retold v) x x' (.slot j) r r') (hj : j < n) (default : String) :
    Passes v e (fun S d d' => Node.AllHoisted S.H past d.1 d'.1 ∧ d'.2 = d.2)
      (heading c params r n default) (heading c' params r' n default) := by
  obtain ⟨hslot, hslot'⟩ := h.slot_eq
  have hvalue : Passes v e (fun S m m' => m.Hoisted S.H past m') (requiredValue c params r j)
      (requiredValue c' params r' j) := by
    unfold requiredValue required
    rw [hslot, hslot']
    exact hx.passes
  have hother {i : Nat} (hi : i ≠ j) {ρ : Renaming} {D : Footprint} (reg : Region ρ D) :
      Mirrors reg v (Node.Renamed ρ D) (requiredValue c params r i) (requiredValue c' params r' i) :=
    mirrors_requiredValue (h.slot_ne fun hij => hi (ArgPlace.slot.inj hij).symm) c c' params
  have hvalues : Passes v e (fun S => OneAt (Node.Renamed S.ρ S.H.others) (Node.Hoisted S.H past)
      (Node.Renamed S.ρ .all)) (each (requiredValue c params r) (List.range n))
      (each (requiredValue c' params r') (List.range n)) :=
    .each (oneAt_range hj (fun _ hi S => hother hi S.before) hvalue fun _ hi S => hother hi S.after)
  unfold heading
  refine hvalues.first fun S ns ns' hns => ?_
  refine .after (free_title (h.slot_ne fun hij => Nat.ne_of_lt hj (ArgPlace.slot.inj hij)) _) ?_
  rintro t _ rfl
  exact .pure ⟨Node.allHoisted_of_oneAt hns, rfl⟩

/-- The series is not in a title. -/
theorem passes_title {P : Setting → List Node × String → List Node × String → Prop}
    (hx : ∀ t, x ≠ .text t) (h : BoundArgs.Holed (Expr.Retold v) x x' (.slot n) r r')
    (default : String) :
    Passes v e P (heading c params r n default) (heading c' params r' n default) := by
  refine .absurd fun s => .bind fun _ _ _ => .bind ?_
  unfold title
  rw [h.slot_eq.1]
  cases x with
  | text t => exact (hx t rfl).elim
  | _ => exact yields_fail

/-- The series is neither in a value nor in the title. -/
theorem mirrors_heading {place : ArgPlace}
    (h : BoundArgs.Holed (Expr.Retold v) x x' place r r') (hplace : ∀ j ≤ n, place ≠ .slot j)
    (default : String) {ρ : Renaming} {D : Footprint} (reg : Region ρ D) :
    Mirrors reg v (fun d d' => List.Forall₂ (Node.Renamed ρ D) d.1 d'.1 ∧ d'.2 = d.2)
      (heading c params r n default) (heading c' params r' n default) := by
  have hvalues : Mirrors reg v (List.Forall₂ (Node.Renamed ρ D))
      (each (requiredValue c params r) (List.range n))
      (each (requiredValue c' params r') (List.range n)) :=
    .each <| List.forall₂_same.2 fun j hj =>
      mirrors_requiredValue (h.slot_ne (hplace j (Nat.le_of_lt (List.mem_range.1 hj)))) c c' params
  unfold heading
  refine hvalues.bind fun ns ns' hns => ?_
  refine .after (free_title (h.slot_ne (hplace n (Nat.le_refl n))) _) ?_
  rintro t _ rfl
  exact .pure ⟨hns, rfl⟩

end

/-- The series is in one of the values of a drawing, or in one of its options. -/
def DrawnHoisted (past : Bool) (S : Setting) (d d' : List Node × String × OptionNodes) : Prop :=
  d'.2.1 = d.2.1 ∧
    (Node.AllHoisted S.H past d.1 d'.1 ∧ Keyed (OptionNode.Renamed S.ρ .all) d.2.2 d'.2.2 ∨
      List.Forall₂ (Node.Renamed S.ρ S.H.others) d.1 d'.1 ∧
        OptionNodes.Hoisted S.H past d.2.2 d'.2.2)

/-- What an argument of a drawing may be. -/
structure Drawn (v : String) (e : Expr) (past : Bool) (x x' : Expr) : Prop extends
    Offers v e past x x' where
  not_text : ∀ t, x ≠ .text t
  not_flag : ∀ f, x ≠ .flag f

theorem yields_drawn_length (c : Call) (params : List String) (n : Nat) (default : String)
    (s : Scope) : Yields (drawn c params n default) s fun d _ => d.1.length = n := by
  refine .bind fun b s₀ _ => .bind fun d s₁ hd => .bind fun _ _ _ => .pure ?_
  have hlength : Yields (heading c params b n default) s₀ fun d _ => d.1.length = n :=
    .bind ((yields_each_length _ _).mono fun _ _ h => .bind fun _ _ _ =>
      .pure (h.trans List.length_range))
  exact hlength d s₁ hd

theorem passes_drawn {i : Nat} {a a' : Arg Expr} {c c' : Call} (h : CallsAt v i a a' c c')
    (ha : Drawn v e past a.value a'.value) (params : List String) (n : Nat) (default : String) :
    Passes v e (fun S d d' => d.1.length = n ∧ DrawnHoisted past S d d')
      (drawn c params n default) (drawn c' params n default) := by
  refine Passes.yielding ?_ (yields_drawn_length c params n default)
  refine .afterFree (free_bind_holed h.args h.label params true) ?_
  rintro r r' ⟨place, hplace, hholed⟩
  by_cases hhead : ∃ j ≤ n, place = .slot j
  · obtain ⟨j, hj, rfl⟩ := hhead
    have hheading : Passes v e (fun S d d' => Node.AllHoisted S.H past d.1 d'.1 ∧ d'.2 = d.2)
        (heading c params r n default) (heading c' params r' n default) := by
      rcases Nat.lt_or_eq_of_le hj with hj | rfl
      · exact passes_heading ha.toHands hholed hj default
      · exact passes_title ha.not_text hholed default
    refine hheading.first fun S d d' hd => ?_
    exact (mirrors_options (optionArgs_keyed_past hholed params (Nat.lt_succ_of_le hj))).map
      fun _ _ hos => ⟨hd.2, .inl ⟨hd.1, hos⟩⟩
  · have hlate : ∀ j ≤ n, place ≠ .slot j := fun j hj hslot => hhead ⟨j, hj, hslot⟩
    have hoptions := passes_options ha.toOffers (p := params) (k := n + 1) hholed fun j hj =>
      ⟨Nat.lt_of_not_le fun hle => hlate j hle hj, CallOf.place_lt (hj ▸ hplace)⟩
    exact .middle (fun S => mirrors_heading hholed hlate default S.before) hoptions
      fun S d d' os os' hd hos => .pure ⟨hd.2, .inr ⟨hd.1, hos⟩⟩

section

variable {i : Nat} {a a' : Arg Expr} {c c' : Call}

theorem passes_plot (h : CallsAt v i a a' c c') (ha : Drawn v e past a.value a'.value)
    (char : Bool) :
    Passes v e (fun S d d' => d.1.Hoisted S.H past d'.1 ∧ d'.2 = d.2) (plot c char)
      (plot c' char) := by
  rw [plot_eq, plot_eq]
  refine (passes_drawn h ha _ 1 "Plot").map fun S d d' hd => ?_
  obtain ⟨ns, t, os⟩ := d
  obtain ⟨ns', t', os'⟩ := d'
  obtain ⟨hone, htitle, hparts⟩ := hd
  obtain ⟨n, rfl⟩ := List.length_eq_one_iff.1 hone
  dsimp only at htitle hparts ⊢
  subst htitle
  rcases hparts with ⟨hns, hos⟩ | ⟨hns, hos⟩
  · cases hns with
    | head hn _ => exact ⟨.plot _ char hn hos, rfl⟩
    | tail _ hns => cases hns
  · cases hns with
    | cons hn _ => exact ⟨.plotOption _ char hn hos, rfl⟩

theorem passes_hline (h : CallsAt v i a a' c c') (ha : Drawn v e past a.value a'.value) :
    Passes v e (fun S d d' => d.Hoisted S.H past d') (hline c) (hline c') := by
  rw [hline_eq, hline_eq]
  refine (passes_drawn h ha _ 1 "HLine").map fun S d d' hd => ?_
  obtain ⟨ns, t, os⟩ := d
  obtain ⟨ns', t', os'⟩ := d'
  obtain ⟨hone, htitle, hparts⟩ := hd
  obtain ⟨n, rfl⟩ := List.length_eq_one_iff.1 hone
  dsimp only at htitle hparts ⊢
  subst htitle
  rcases hparts with ⟨hns, hos⟩ | ⟨hns, hos⟩
  · cases hns with
    | head hn _ => exact .hline _ hn hos
    | tail _ hns => cases hns
  · cases hns with
    | cons hn _ => exact .hlineOption _ hn hos

theorem passes_candle (h : CallsAt v i a a' c c') (ha : Drawn v e past a.value a'.value)
    (bar : Bool) : Passes v e (fun S d d' => d.Hoisted S.H past d') (candle c bar)
      (candle c' bar) := by
  rw [candle_eq, candle_eq]
  refine (passes_drawn h ha _ 4 _).map fun S d d' hd => ?_
  obtain ⟨ns, t, os⟩ := d
  obtain ⟨ns', t', os'⟩ := d'
  obtain ⟨hfour, htitle, hparts⟩ := hd
  dsimp only at hfour htitle hparts ⊢
  subst htitle
  rcases hparts with ⟨hns, hos⟩ | ⟨hns, hos⟩
  · obtain ⟨o, h, l, c, rfl⟩ := List.length_eq_four.1 hfour
    obtain ⟨o', h', l', c', rfl⟩ := List.length_eq_four.1 (hns.length_eq.trans hfour)
    exact .candle _ bar hns hos
  · obtain ⟨o, h, l, c, rfl⟩ := List.length_eq_four.1 hfour
    obtain ⟨o', h', l', c', rfl⟩ := List.length_eq_four.1 (hns.length_eq.symm.trans hfour)
    obtain _ | ⟨ho, _ | ⟨hh, _ | ⟨hl, _ | ⟨hc, -⟩⟩⟩⟩ := hns
    exact .candleOption _ bar ho hh hl hc hos

theorem Drawn.no_text {x x' : Expr} (hx : Drawn v e past x x') (what : String) (s : Scope) :
    Yields (text what x) s fun _ _ => False := by
  cases x with
  | text t => exact (hx.not_text t rfl).elim
  | _ => exact yields_fail

theorem Drawn.no_plotTitle {x x' : Expr} (hx : Drawn v e past x x') (s : Scope) :
    Yields (plotTitle x) s fun _ _ => False := by
  cases x with
  | text t => exact (hx.not_text t rfl).elim
  | name n p => exact (hx.not_name n p rfl).elim
  | _ => exact yields_fail

/-- The titles of the plots around a filled area. -/
def filled (c : Call) (b : BoundArgs Expr) : ResolveM (String × String) := do
  let plot1 ← plotTitle (← required c ["plot1", "plot2", "color"] b 0)
  let plot2 ← plotTitle (← required c ["plot1", "plot2", "color"] b 1)
  return (plot1, plot2)

theorem fill_eq (c : Call) : fill c = (do
    let b ← bind c ["plot1", "plot2", "color"] true
    let plots ← filled c b
    let options ← options (optionArgs ["plot1", "plot2", "color"] b 2)
    return .fill plots.1 plots.2 options) := by
  simp only [fill, filled, bind_assoc, pure_bind]

instance (c : Call) (b : BoundArgs Expr) : Keeps (filled c b) := by
  unfold filled
  infer_instance

/-- The series is in an option of a filled area. -/
theorem passes_fill (h : CallsAt v i a a' c c') (ha : Drawn v e past a.value a'.value) :
    Passes v e (fun S d d' => d.Hoisted S.H past d') (fill c) (fill c') := by
  rw [fill_eq, fill_eq]
  refine .afterFree (free_bind_holed h.args h.label _ true) ?_
  rintro r r' ⟨place, hplace, hholed⟩
  have htitle {j : Nat} (hj : place = .slot j) {f : String → ResolveM (String × String)} (s : Scope) :
      Yields (required c ["plot1", "plot2", "color"] r j >>= fun x => plotTitle x >>= f) s
        fun _ _ => False := by
    subst hj
    unfold required
    rw [hholed.slot_eq.1]
    exact .bind (.pure (.bind ((ha.no_plotTitle s).mono fun _ _ hno => hno.elim)))
  by_cases hhead : place = .slot 0 ∨ place = .slot 1
  · have hfilled (s : Scope) : Yields (filled c r) s fun _ _ => False := by
      unfold filled
      rcases hhead with hslot | hslot
      · exact htitle hslot s
      · exact .bind fun _ _ _ => .bind fun _ s₁ _ => htitle hslot s₁
    exact .absurd fun s => .bind ((hfilled s).mono fun _ _ hno => hno.elim)
  · rw [not_or] at hhead
    have hmirrors (S : Setting) : Mirrors S.before v Eq (filled c r) (filled c' r') := by
      unfold filled
      refine .after (free_required (hholed.slot_ne hhead.1) c c' _) fun _ _ hx => ?_
      refine (mirrors_plotTitle hx).bind ?_
      rintro t _ rfl
      refine .after (free_required (hholed.slot_ne hhead.2) c c' _) fun _ _ hy => ?_
      refine (mirrors_plotTitle hy).bind ?_
      rintro u _ rfl
      exact .pure rfl
    have hoptions := passes_options ha.toOffers (p := ["plot1", "plot2", "color"]) (k := 2) hholed
      fun j hj => by
        subst hj
        refine ⟨Nat.lt_of_not_le fun hle => ?_, CallOf.place_lt hplace⟩
        obtain rfl | rfl : j = 0 ∨ j = 1 := by omega
        · exact hhead.1 rfl
        · exact hhead.2 rfl
    refine .middle hmirrors hoptions ?_
    rintro S ⟨t, u⟩ _ os os' rfl hos
    exact .pure (.fill t u hos)

/-- The description of a script has no series. -/
theorem passes_indicator (h : CallsAt v i a a' c c') (ha : Drawn v e past a.value a'.value) :
    Passes v e (fun S d d' => d.Hoisted S.H past d') (indicator c) (indicator c') := by
  unfold indicator
  refine .afterFree (free_bind_holed h.args h.label _ false) ?_
  rintro r r' ⟨place, hplace, hholed⟩
  cases place with
  | extra name => exact (place_ne_extra hplace).elim
  | slot j =>
    have hj : j < 3 := CallOf.place_lt hplace
    have hslot := hholed.slot_eq.1
    have htext (what : String) (s : Scope) : Yields (text? r j what) s fun _ _ => False := by
      unfold text?
      rw [hslot]
      exact .bind ((ha.no_text what s).mono fun _ _ hno => hno.elim)
    have hoverlay (s : Scope) : Yields (overlay? r j) s fun _ _ => False := by
      unfold overlay?
      rw [hslot]
      cases hx : a.value with
      | flag f => exact (ha.not_flag f hx).elim
      | _ => exact yields_fail
    refine .absurd fun s => ?_
    obtain rfl | rfl | rfl : j = 0 ∨ j = 1 ∨ j = 2 := by omega
    · exact .bind ((htext _ s).mono fun _ _ hno => hno.elim)
    · exact .bind fun _ s₁ _ => .bind ((htext _ s₁).mono fun _ _ hno => hno.elim)
    · exact .bind fun _ _ _ => .bind fun _ s₂ _ =>
        .bind ((hoverlay s₂).mono fun _ _ hno => hno.elim)

/-- **A drawing** in which an argument is given a name. -/
theorem passes_drawing? (h : CallsAt v i a a' c c') (ha : Drawn v e past a.value a'.value) :
    Option.Rel (Passes v e fun S d d' => d.Hoisted S.H past d') (drawing? c) (drawing? c') := by
  unfold drawing?
  rw [h.name]
  have plot (char : Bool) : Passes v e (fun S d d' => d.Hoisted S.H past d')
      (do return (← plot c char).1) (do return (← plot c' char).1) :=
    (passes_plot h ha char).map fun _ _ _ hd => hd.1
  split
  · exact .some (plot false)
  · exact .some (plot true)
  · exact .some (passes_candle h ha false)
  · exact .some (passes_candle h ha true)
  · exact .some (passes_fill h ha)
  · exact .some (passes_hline h ha)
  · exact .some (passes_indicator h ha)
  · exact .none

end

/-! ## Statements -/

theorem drawing?_study {c : Call} {st : Study} (h : Study.ofName? c.name = some st) :
    drawing? c = none := by
  unfold drawing?
  split
  case h_8 => rfl
  all_goals
    rename_i hname
    rw [hname] at h
    cases h

theorem Naming.not_drawn {x x' : Expr} (h : Expr.Naming v e past x x') :
    (∀ t, x ≠ .text t) ∧ ∀ f, x ≠ .flag f := by
  cases h <;> exact ⟨by rintro _ ⟨⟩, by rintro _ ⟨⟩⟩

section

variable (he : ∀ n p, e ≠ .name n p)
include he

theorem drawn_of_naming {x x' : Expr} (h : Expr.Naming v e past x x') : Drawn v e past x x' :=
  ⟨⟨⟨(Naming.not_name h).1, (Naming.not_name h).2, passes_expr he x h⟩, passes_option he h⟩,
    (Naming.not_drawn h).1, (Naming.not_drawn h).2⟩

/-- **A statement that is an expression.** -/
theorem passes_expression {x x' : Expr} (h : Expr.Naming v e past x x') :
    Passes v e (fun S o o' => o.Hoisted S.H past o') (expression x) (expression x') := by
  have plain : Passes v e (fun S o o' => Op.Hoisted S.H past o o') (do return .eval (← expr x))
      (do return .eval (← expr x')) := (passes_expr he x h).map fun S _ _ hn => .eval hn
  unfold expression
  cases h with
  | @argument _ name hname as as' h p q =>
    obtain ⟨i, a, a', hargs, hlabel, ha, -⟩ := hands_args he _ h
    have hcalls : CallsAt v i a a' ⟨name, as, p⟩ ⟨name, as', q⟩ := ⟨rfl, hargs, hlabel⟩
    have hdrawing := passes_drawing? hcalls (drawn_of_naming he ha)
    dsimp only
    generalize drawing? ⟨name, as, p⟩ = m at hdrawing
    generalize drawing? ⟨name, as', q⟩ = m' at hdrawing
    cases hdrawing with
    | none => exact plain
    | some hm => exact hm.map fun S _ _ hd => .draw hd
  | operand name h p q has p' q' => exact plain
  | here hst hparam hseries hpre hpost p q p' q' r =>
    dsimp only
    rw [drawing?_study hst, drawing?_study hst]
    exact plain
  | _ => exact plain

/-- The call whose values are given to bindings. -/
theorem passes_unpacked {c c' : Call} (h : Expr.Naming v e past (.call c) (.call c')) :
    Passes v e (fun S k k' => k.Hoisted S.H past k') (study c) (study c') := by
  cases h with
  | argument hname h p q =>
    obtain ⟨i, a, a', hargs, hlabel, -, ha⟩ := hands_args he _ h
    exact passes_study ⟨rfl, hargs, hlabel⟩ fun _ _ _ _ => .within ha
  | operand name h p q has p' q' =>
    refine .absurd fun s => ?_
    rw [study]
    exact yields_fail
  | here hst hparam hseries hpre hpost p q p' q' r =>
    obtain ⟨hcalls, hhanded⟩ := handed_here he hst hparam hseries hpre hpost p q p' q' r
    exact passes_study hcalls hhanded

/-- A plot that is given a name. -/
theorem passes_boundPlot? {x x' : Expr} (h : Expr.Naming v e past x x') :
    Option.Rel (Passes v e fun S d d' => d.1.Hoisted S.H past d'.1 ∧ d'.2 = d.2)
      (boundPlot? .binding x) (boundPlot? .binding x') := by
  unfold boundPlot?
  cases h with
  | @argument _ name hname as as' h p q =>
    obtain ⟨i, a, a', hargs, hlabel, ha, -⟩ := hands_args he _ h
    have hcalls : CallsAt v i a a' ⟨name, as, p⟩ ⟨name, as', q⟩ := ⟨rfl, hargs, hlabel⟩
    dsimp only
    split
    · exact .some (passes_plot hcalls (drawn_of_naming he ha) false)
    split
    · exact .some (passes_plot hcalls (drawn_of_naming he ha) true)
    · exact .none
  | operand name h p q has p' q' => exact .none
  | @here name st hst k param pre pre' post post' hparam hseries hpre hpost p q p' q' r =>
    have hplot : name ≠ "plot" := by
      rintro rfl
      cases hst
    have hchar : name ≠ "plotchar" := by
      rintro rfl
      cases hst
    dsimp only
    rw [if_neg hplot, if_neg hchar, if_neg hplot, if_neg hchar]
    exact .none
  | _ => exact .none

theorem passes_declaration {n : String} (hn : n ≠ v) {x x' : Expr}
    (h : Expr.Naming v e past x x') (p q : Nat) :
    Passes v e (fun S o o' => o.Hoisted S.H past o') (declaration .binding n x p)
      (declaration .binding n x' q) := by
  have hplot := passes_boundPlot? he h
  unfold declaration
  generalize boundPlot? .binding x = m at hplot
  generalize boundPlot? .binding x' = m' at hplot
  cases hplot with
  | some hm =>
    refine hm.first fun S d d' hd => ?_
    obtain ⟨d, t⟩ := d
    obtain ⟨d', _⟩ := d'
    obtain ⟨hd, rfl⟩ := hd
    exact (mirrors_declare hn p q (.plot _)).map fun _ _ _ => .draw hd
  | none =>
    exact (passes_expr he x h).first fun S y y' hy => (Mirrors.slot .bindings).bind fun i i' hi =>
      (mirrors_declare hn p q (.series (by decide) hi.1)).map fun _ _ _ => .set hi.1 hy

/-- What the statement becomes has the series. -/
inductive Compiled.Hoisted {ρ : Renaming} (H : Hoisting ρ) (past : Bool) : Compiled → Compiled → Prop
  | op {o o' : Op} (h : o.Hoisted H past o') : Hoisted H past (.op o) (.op o')
  | result {r r' : Result} (h : r.Hoisted H past r') : Hoisted H past (.result r) (.result r')

theorem passes_fields {xs xs' : List (String × Expr)}
    (h : KeyedAt (Expr.Retold v) (Expr.Naming v e past) (Expr.Retold v) xs xs') :
    Passes v e (fun S => KeyedAt (Node.Renamed S.ρ S.H.others) (Node.Hoisted S.H past)
      (Node.Renamed S.ρ .all)) (fields xs) (fields xs') := by
  refine .each (h.imp ?_ ?_ ?_)
  · exact fun _ _ hx S => (mirrors_expr _ hx.2).map fun _ _ hn => ⟨hx.1, hn⟩
  · exact fun _ _ hx => (passes_expr he _ hx.2).map fun S _ _ hn => ⟨hx.1, hn⟩
  · exact fun _ _ hx S => (mirrors_expr _ hx.2).map fun _ _ hn => ⟨hx.1, hn⟩

/-- **A statement** in which an argument is given a name. -/
theorem passes_statement {st st' : Statement} (h : st.Naming v e past st') :
    Passes v e (fun S c c' => Compiled.Hoisted S.H past c c') (statement st) (statement st') := by
  cases h with
  | declare hn h p q => exact (passes_declaration he hn h p q).map fun S _ _ ho => .op ho
  | reassign hn h p q =>
    exact .middle (fun S => mirrors_reassigned hn p q) (passes_expr he _ h)
      fun S a a' _ _ ha hy => .pure (.op (.set ha hy))
  | @unpack ns hns c c' h p q =>
    refine (passes_unpacked he h).first fun S k k' hk => ?_
    rw [hk.arity]
    split
    · exact fun _ _ _ => .bind yields_fail
    · exact (mirrors_targets hns p q).map fun _ _ hts => .op (.unpack hk hts)
  | expr h => exact (passes_expression he h).map fun S _ _ ho => .op ho
  | result h p q =>
    cases h with
    | single h => exact (passes_expr he _ h).map fun S _ _ hn => .result (.single hn)
    | named h => exact (passes_fields he h).map fun S _ _ hfs => .result (.named hfs)

end

end Resolve

end BarScript
