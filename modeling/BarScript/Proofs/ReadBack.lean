import BarScript.Proofs.Reading
import BarScript.Proofs.StatementPlaces
import BarScript.Proofs.Variable

/-!
# A declared name can be read back

A name that an assignment declares is no keyword (`parse_declared`), so an expression may consist of
it, and it then stands for the variable: for what was assigned to it last (`name_read_back`). There
is one exception. The word `na` may be assigned to, but as an expression it is the missing value; only
as a field of a record, without a value, it is the variable (`name_not_read_back`).
-/

namespace BarScript

/-! ## Names that are declared -/

namespace Cursor

theorem name_ok {c : Cursor} {p : Parsed c String} (h : c.name = .ok p) : p.value ∉ keywords := by
  unfold name at h
  split at h
  · split at h
    · split at h
      · cases h
      · rename_i hkeyword
        cases h
        exact hkeyword
    · cases h
  · cases h

/-- No statement declares a keyword as its only name. -/
def NoKeyword (st : Statement) : Prop :=
  ∀ kind x e position, st = .declare kind x e position → x ∉ keywords

theorem declaration_ok {c : Cursor} {kind : DeclKind} {position : Nat} {p : Parsed c Statement}
    (h : c.declaration kind position = .ok p) : NoKeyword p.value := by
  obtain ⟨name, hname, h⟩ := ok_of_bind h
  have hkeyword := name_ok hname
  split at h
  · obtain ⟨value, hvalue, h⟩ := ok_of_bind h
    cases h
    rintro _ _ _ _ ⟨⟩
    exact hkeyword
  · cases h

theorem assignment?_ok {c : Cursor} {position : Nat} {p : Parsed c Statement}
    (h : c.assignment? position = some (.ok p)) : NoKeyword p.value := by
  unfold assignment? at h
  split at h
  · cases h
  · rename_i name hname
    have hkeyword := name_ok hname
    split at h
    · obtain ⟨value, hvalue, h⟩ := ok_of_bind (Option.some.inj h)
      cases h
      exact nofun
    split at h
    · obtain ⟨value, hvalue, h⟩ := ok_of_bind (Option.some.inj h)
      cases h
      rintro _ _ _ _ ⟨⟩
      exact hkeyword
    · cases h

theorem tuple_ok {c : Cursor} {position : Nat} {p : Parsed c Statement}
    (h : c.tuple position = .ok p) : NoKeyword p.value := by
  obtain ⟨names, hnames, h⟩ := ok_of_bind h
  obtain ⟨closing, hclosing, h⟩ := ok_of_bind h
  split at h
  · obtain ⟨call, hcall, h⟩ := ok_of_bind h
    cases h
    exact nofun
  · cases h

theorem statement_ok {c : Cursor} {p : Parsed c Statement} (h : statement c = .ok p) :
    NoKeyword p.value := by
  unfold statement at h
  dsimp only at h
  split at h
  · obtain ⟨value, hvalue, h⟩ := ok_of_bind h
    cases h
    rintro _ _ _ _ ⟨⟩
  split at h
  · obtain ⟨s, hs, h⟩ := ok_of_bind h
    cases h
    have hkeyword := declaration_ok hs
    exact hkeyword
  split at h
  · obtain ⟨s, hs, h⟩ := ok_of_bind h
    cases h
    have hkeyword := declaration_ok hs
    exact hkeyword
  split at h
  · obtain ⟨s, hs, h⟩ := ok_of_bind h
    cases h
    have hkeyword := tuple_ok hs
    exact hkeyword
  split at h
  · rename_i m hm
    exact assignment?_ok (h ▸ hm)
  · obtain ⟨e, he, h⟩ := ok_of_bind h
    cases h
    rintro _ _ _ _ ⟨⟩

theorem Reads.noKeyword {c : Cursor} {ps : List Passage} (h : c.Reads ps) :
    ∀ p ∈ ps, NoKeyword p.statement := by
  induction h with
  | done => exact List.forall_mem_nil _
  | cons _ hs _ _ ih => exact List.forall_mem_cons.2 ⟨statement_ok hs, ih⟩

end Cursor

/-- A name that is declared alone is no keyword. -/
theorem parse_declared {source : String} {ss : List Statement} (h : parse source = .ok ss) {i : Nat}
    {kind : DeclKind} {x : String} {e : Expr} {position : Nat}
    (hst : ss[i]? = some (.declare kind x e position)) : x ∉ keywords := by
  obtain ⟨ps, hreads, -, rfl⟩ := reads_of_parse h
  obtain ⟨p, hp, heq⟩ := List.mem_map.1 (List.mem_of_getElem? hst)
  exact hreads.noKeyword p hp _ _ _ _ heq

/-! ## Names that are read -/

namespace Cursor

/-- The next lexeme is the word `x`, and neither a member nor the arguments of a call touch it. -/
structure Alone (c : Cursor) (x : String) (p : Parsed c Lexeme) : Prop where
  pop : c.pop? = some p
  word : p.value.token = .word x
  no_member : p.next.touches p.value.stop '.' = false
  no_call : p.next.touches p.value.stop '(' = false

section

variable {c : Cursor} {p : Parsed c Lexeme}

theorem token?_of_pop? (h : c.pop? = some p) (t : Token) :
    c.token? t = if p.value.token = t then some (p.map fun _ => ()) else none := by
  rw [token?, h]

theorem plainSymbol?_of_pop? (h : c.pop? = some p) {s : Char} (hs : p.value.token ≠ .symbol s) :
    c.plainSymbol? s = none := by
  rw [plainSymbol?, h]
  exact if_neg fun h => hs h.1

theorem symbolEquals?_of_pop? (h : c.pop? = some p) {s : Char} (hs : p.value.token ≠ .symbol s) :
    c.symbolEquals? s = none := by
  rw [symbolEquals?, h]
  exact if_neg fun h => hs h.1

/-- Behind the field of a record no operator follows. -/
theorem op?_of_pop? (h : c.pop? = some p) {s : Char} (hs : s ∈ [',', '\x7d'])
    (hvalue : p.value.token = .symbol s) (t : Tier) : t.op? c = none := by
  have token (t : Token) (ht : t ≠ .symbol s) : c.token? t = none := by
    rw [token?_of_pop? h, hvalue, if_neg (Ne.symm ht)]
  have plain (s' : Char) (hs' : s' ≠ s) : c.plainSymbol? s' = none :=
    plainSymbol?_of_pop? h (by rw [hvalue]; exact fun h => hs' (Token.symbol.inj h).symm)
  have equals (s' : Char) (hs' : s' ≠ s) : c.symbolEquals? s' = none :=
    symbolEquals?_of_pop? h (by rw [hvalue]; exact fun h => hs' (Token.symbol.inj h).symm)
  have hs : s = ',' ∨ s = '\x7d' := by simpa using hs
  cases t <;> rcases hs with rfl | rfl <;>
    simp [Tier.op?, keyword?, symbol?, token, plain, equals]

end

namespace Alone

variable {c : Cursor} {x : String} {p : Parsed c Lexeme}

theorem members_eq (h : c.Alone x p) :
    members x p.value.stop p.next.rest = (x, p.value.stop, p.next.rest) := by
  have hmember := h.no_member
  unfold touches at hmember
  unfold members
  split
  · rename_i heq
    rw [heq] at hmember
    have hapart (start : Nat) (h : (start == p.value.stop) = false) (start' stop' : Nat) :
        ¬(start = p.value.stop ∧ start' = stop') := fun h' => by simp [h'.1] at h
    rw [if_neg (hapart _ (by simpa using hmember) _ _), heq]
  · rfl

/-- An operand is the name. -/
theorem primary_eq (h : c.Alone x p) (hx : x ∉ keywords) (hna : x ≠ "na") :
    primary c = .ok (p.map fun l => .name x l.start) := by
  have hname : c.dottedName = .ok ⟨(x, p.value.stop), p.next, p.later⟩ := by
    unfold dottedName
    rw [h.pop]
    dsimp only
    rw [h.word]
    dsimp only
    rw [if_neg hx]
    simp only [h.members_eq]
  unfold primary
  rw [h.pop]
  dsimp only
  split
  case h_7 htrue => exact absurd (by decide) (Token.word.inj (h.word.symm.trans htrue) ▸ hx)
  case h_8 hfalse => exact absurd (by decide) (Token.word.inj (h.word.symm.trans hfalse) ▸ hx)
  case h_9 =>
    rw [bind_of_ok hname]
    dsimp only
    rw [h.no_call, if_neg Bool.false_ne_true, if_neg hna]
    rfl
  all_goals simp_all [h.word]

/-- The value of a field is the name, if nothing else stands there. -/
theorem expression_eq (h : c.Alone x p) (hx : x ∉ keywords) (hna : x ≠ "na")
    {q : Parsed p.next Lexeme} (hq : p.next.pop? = some q) {s : Char} (hs : s ∈ [',', '\x7d'])
    (hvalue : q.value.token = .symbol s) :
    expression c = .ok (p.map fun l => .name x l.start) := by
  have after (t : Token) (ht : t ≠ .symbol s) : p.next.token? t = none := by
    rw [token?_of_pop? hq, hvalue, if_neg (Ne.symm ht)]
  have before (t : Token) (ht : t ≠ .word x) : c.token? t = none := by
    rw [token?_of_pop? h.pop, h.word, if_neg (Ne.symm ht)]
  have hsigned : signed c = .ok (p.map fun l => .name x l.start) := by
    rw [signed_bracketed (before _ (by rintro ⟨⟩)) (before _ (by rintro ⟨⟩))]
    refine (bind_of_ok (h.primary_eq hx hna) _).trans (historyFrom_none ?_)
    exact after _ (by rintro ⟨⟩; simp at hs)
  have chained {t : Tier} (ht : operand t c = .ok (p.map fun l => .name x l.start)) :
      chain t c = .ok (p.map fun l => .name x l.start) :=
    (chain_of_operand ht).trans (chainFrom_none (op?_of_pop? hq hs hvalue t))
  have hproduct := chained (t := .product) (by rw [operand, hsigned])
  have hsum := chained (t := .sum) (by rw [operand, hproduct])
  have hcomparison := chained (t := .comparison) (by rw [operand, hsum])
  have hnot : c.keyword? "not" = none := before _ (by rintro ⟨⟩; exact hx (by decide))
  have hnegation : negation c = .ok (p.map fun l => .name x l.start) :=
    (negation_chain hnot).trans hcomparison
  have hand := chained (t := .and) (by rw [operand, hnegation])
  have hor := chained (t := .or) (by rw [operand, hand])
  exact expression_of_chain hor (after _ (by rintro ⟨⟩; simp at hs))

end Alone

end Cursor

/-- A word that is read as a name wherever it stands: alone as an operand, and as the value of a field
of a record, be it written out or not. -/
structure ReadAsName (x : String) : Prop where
  operand : ∀ (c : Cursor) (p : Parsed c Lexeme), c.Alone x p →
    primary c = .ok (p.map fun l => .name x l.start)
  shorthand : ∀ (c : Cursor) (key : Parsed c String), c.key = .ok key → key.value = x →
    key.next.plainSymbol? ':' = none → c.fieldValue key = .ok (key.map fun _ => .name x c.position)
  written : ∀ (c : Cursor) (key : Parsed c String) (colon : Parsed key.next Unit)
    (p : Parsed colon.next Lexeme) (q : Parsed p.next Lexeme),
    c.key = .ok key → key.next.plainSymbol? ':' = some colon → colon.next.Alone x p →
    p.next.pop? = some q → q.value.token = .symbol ',' ∨ q.value.token = .symbol '\x7d' →
    c.fieldValue key = .ok (key.andThen (colon.andThen (p.map fun l => .name x l.start)))

theorem readAsName {x : String} (hx : x ∉ keywords) (hna : x ≠ "na") : ReadAsName x where
  operand _ _ h := h.primary_eq hx hna
  shorthand c key _ hvalue hcolon := by
    rw [Cursor.fieldValue, hcolon]
    dsimp only [pure, Except.pure, Parsed.map]
    rw [hvalue]
  written c key colon p q _ hcolon h hq hvalue := by
    have hexpression : expression colon.next = .ok (p.map fun l => .name x l.start) := by
      rcases hvalue with hvalue | hvalue
      · exact h.expression_eq hx hna hq (by simp) hvalue
      · exact h.expression_eq hx hna hq (by simp) hvalue
    rw [Cursor.fieldValue, hcolon]
    exact bind_of_ok hexpression _

/-! ## Names that stand for variables -/

namespace Resolve

/-- A name that is resolved to a slot has been declared for it. -/
theorem find?_of_name {x : String} {position : Nat} {s : Scope} {bank : Bank} {id : Nat}
    (h : name x position none s = .ok (.read (.slot bank id) none, s)) :
    s.find? x = some (.series bank id) := by
  have hget : (get : ResolveM Scope) s = .ok (s, s) := rfl
  rw [name, bind_ok hget] at h
  cases hfind : s.find? x with
  | some b =>
    rw [hfind] at h
    cases b with
    | series bank' id' => cases h; rfl
    | plot title => cases h
  | none =>
    -- what is built in has no slot
    rw [hfind] at h
    dsimp only at h
    cases hprice : Price.ofName? x with
    | some price => rw [hprice] at h; cases h
    | none =>
      rw [hprice] at h
      dsimp only at h
      cases hclock : Clock.ofName? x with
      | some clock => rw [hclock] at h; cases h
      | none =>
        rw [hclock] at h
        dsimp only at h
        split_ifs at h <;> cases h

/-- A declared name is its slot, as a value and as a series. -/
theorem expr_of_find? {x : String} {s : Scope} {bank : Bank} {id : Nat}
    (h : s.find? x = some (.series bank id)) (position : Nat) :
    expr (.name x position) s = .ok (.read (.slot bank id) none, s) ∧
      source (.name x position) s = .ok (.slot bank id, s) := by
  have hget : (get : ResolveM Scope) s = .ok (s, s) := rfl
  constructor
  · rw [expr, name, bind_ok hget, h]
    rfl
  · rw [source, bind_ok hget, namedSource?, h]
    rfl

end Resolve

section

variable {α : Type} [Arith α] {ss : List Statement} {p : Program} {i id : Nat} {x : String}

theorem Series.ago?_foldl_setCurrent {β : Type} (s : Series β) {ws : List β} (h : ws ≠ []) :
    (ws.foldl setCurrent s).ago? 0 = ws.getLast? := by
  rw [Series.ago?_eq, Series.toList_foldl_setCurrent, List.getLast?_eq_some_getLast h]
  simp

/-- A binding has been assigned to at every bar that gets behind its declaration, and holds what was
assigned last. -/
theorem Declared.eval_binding (hd : Declared ss p i x .binding id) {j : Nat} (hj : i < j)
    {c₀ c : Context α} (hreaches : p.Reaches j c₀ c) :
    ∃ v, p.assigned? j (.bindings, id) c₀ = some v ∧
      (Node.read (.slot .bindings id) none).eval c = .ok v c := by
  have hi : i < (p.ops.take j).length := by
    have := hd.lt
    simp
    omega
  have hslot := hreaches.slot (a := (.bindings, id)) (by rintro ⟨⟩)
  obtain ⟨plotted, c₁, ns, vs, hops, -⟩ := hreaches
  have hne : given (.bindings, id) (Op.traceAll (p.ops.take j) [] c₀) ≠ [] :=
    hd.assigns (List.take_prefix j _) hi hops (.inl rfl)
  have hlast := List.getLast?_eq_some_getLast hne
  have hago := Series.ago?_foldl_setCurrent (c₀.stores.slot (.bindings, id)) hne
  rw [← hslot, hlast] at hago
  have hvalue : ((Source.slot .bindings id).view c).ago 0 = _ := congrArg (·.getD Arith.nan) hago
  exact ⟨_, hlast, congrArg (EStateM.Result.ok · c) hvalue⟩

/-- From statement `i` on the name `x` stands for a variable in slot `id`, which every bar assigns to:
resolved at any place of a later statement it is the slot, as a value and as a series, and at any
point behind the declaration it has the value that was assigned last. -/
structure StandsForVariable (α : Type) [Arith α] (ss : List Statement) (p : Program) (i : Nat)
    (x : String) (id : Nat) : Prop where
  declared : Declared ss p i x .binding id
  resolved : ∀ j out s s', i < j → Resolve.statements (ss.take j) .empty = .ok (out, s) →
    s'.names = s.names → ∀ position,
      Resolve.expr (.name x position) s' = .ok (.read (.slot .bindings id) none, s') ∧
        Resolve.source (.name x position) s' = .ok (.slot .bindings id, s')
  value : ∀ j (c₀ c : Context α), i < j → p.Reaches j c₀ c →
    ∃ v, p.assigned? j (.bindings, id) c₀ = some v ∧
      (Node.read (.slot .bindings id) none).eval c = .ok v c

theorem Declared.standsForVariable (hd : Declared ss p i x .binding id) :
    StandsForVariable α ss p i x id where
  declared := hd
  resolved j out s s' hj hout hnames position := by
    refine Resolve.expr_of_find? ?_ position
    rw [Scope.find?, hnames]
    exact Resolve.find?_of_name (hd.name j position none out s hj hout)
  value _ _ _ hj hreaches := hd.eval_binding hj hreaches

/-- **A declared name can be read back**, if it is not `na`. Where a script assigns to a name with
`x = e`, and `e` is no plot, the name is read as a name wherever it stands alone, and in all later
statements it stands for the variable and has the value that was assigned to it last. -/
theorem name_read_back {source : String} {e : Expr} {position : Nat}
    (hparse : parse source = .ok ss) (hcompile : compile source = .ok p)
    (hst : ss[i]? = some (.declare .binding x e position))
    (hplot : (Resolve.boundPlot? .binding e).isNone) (hna : x ≠ "na") :
    ReadAsName x ∧ ∃ id, StandsForVariable α ss p i x id := by
  obtain ⟨ss', hparse', hstatements⟩ := compile_ok hcompile
  cases hparse.symm.trans hparse'
  have hdeclares : (Statement.declare .binding x e position).declares? x = some .binding := by
    rw [Statement.declares?, if_pos ⟨rfl, hplot⟩]
  obtain ⟨id, hd⟩ := compile_declared hstatements hst hdeclares
  exact ⟨readAsName (parse_declared hparse hst) hna, id, hd.standsForVariable⟩

end

/-- The name of a price can be taken by a variable. -/
def closeSource : String := "close = 5\nreturn {close, b: close}"

theorem name_read_back_close :
    let ss : List Statement := [.declare .binding "close" (.number (.ofNat 5)) 0,
      .result (.named [("close", .name "close" 18), ("b", .name "close" 28)]) 10]
    let p : Program := ⟨[.set .bindings 0 (.number (.ofNat 5))],
      some (.named [("close", .read (.slot .bindings 0) none), ("b", .read (.slot .bindings 0) none)]),
      ⟨2, 1, 0, 0⟩⟩
    parse closeSource = .ok ss ∧ compile closeSource = .ok p ∧
      ReadAsName "close" ∧ ∃ id, StandsForVariable Float ss p 0 "close" id := by
  intro ss p
  have hparse : parse closeSource = .ok ss := by with_unfolding_all rfl
  have hcompile : compile closeSource = .ok p := by
    rw [compile, hparse]
    with_unfolding_all rfl
  exact ⟨hparse, hcompile, name_read_back hparse hcompile rfl rfl (by decide)⟩

def naSource : String := "na = 5\nreturn {na, b: na}"

/-- What `na = 5` has assigned can only be had by the field `na` of a record that has no value of its
own: with a value, and as any other expression, `na` is missing. -/
theorem name_not_read_back :
    let bars : List (Bar Float) := [⟨0, 1, 1, 1, 1, 1, 5⟩]
    let r := Runner.configured bars true .standard
    let ran := r.runIn r.context (some naSource) none
    parse naSource = .ok [.declare .binding "na" (.number (.ofNat 5)) 0,
        .result (.named [("na", .name "na" 15), ("b", .na)]) 7] ∧
      ran.1 = .ok () ∧ ran.2.1.results.columns = .named [("na", #[5]), ("b", #[Arith.nan])] := by
  intro bars r ran
  have hparse : parse naSource = .ok [.declare .binding "na" (.number (.ofNat 5)) 0,
      .result (.named [("na", .name "na" 15), ("b", .na)]) 7] := by with_unfolding_all rfl
  have hcompile : compile naSource = .ok ⟨[.set .bindings 0 (.number (.ofNat 5))],
      some (.named [("na", .read (.slot .bindings 0) none), ("b", .na)]), ⟨2, 1, 0, 0⟩⟩ := by
    rw [compile, hparse]
    with_unfolding_all rfl
  have hmarket : Market.ofBars bars = ⟨bars.toArray⟩ := Market.ofBars_ascending (by decide)
  have hr : r = ⟨⟨bars.toArray⟩, none, true, .standard⟩ := by rw [← hmarket]; rfl
  have hran : ran = r.ran ⟨naSource, _⟩ r.context none := Runner.runIn_some hcompile (.inl rfl) _ _
  refine ⟨hparse, ?_⟩
  rw [hran, hr]
  decide +kernel

end BarScript
