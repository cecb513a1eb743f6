import BarScript.Proofs.StatementPlaces
import BarScript.Proofs.Watch

/-!
# The parser ends

The parser under watch reads what the parser reads (`Watched.parse_eq`): at every place in a text
(`Cursor.Within`) and with a budget that is linear in the number of lexemes from there on, each
rule under watch does what the rule of the grammar does (`Watched.expression_eq` and the other
rules). What a rule has passed (`Cursor.Took`) starts at its position and is longer than nothing,
which is why rounds get on (`Cursor.Took.advanced`) and why rules that succeed do (`parser_ends`).
-/

namespace BarScript

open Text (byteSize)

/-! ## Places in a text -/

theorem Lexeme.Stands.stop_le {cs : List Char} {l : Lexeme} (h : l.Stands cs) :
    l.start < l.stop ∧ l.stop ≤ byteSize cs := by
  obtain ⟨own, rest, hbehind, hstop, hlt, -⟩ := h
  exact ⟨hlt, hstop ▸ hbehind.past.le⟩

namespace Cursor

variable {cs : List Char} {c d : Cursor} {u : List Lexeme}

/-- The place is one of the text `cs`: its lexemes stand there one behind the other. -/
structure Within (cs : List Char) (c : Cursor) : Prop where
  stands : c.Stands cs
  ordered : c.Ordered
  finish : c.finish = byteSize cs

theorem within_ofText (source : String) : (ofText source).Within source.toList :=
  ⟨stands_ofText source, ordered_ofText source, rfl⟩

theorem Trace.within (h : c.Trace u d) (hc : c.Within cs) : d.Within cs :=
  ⟨h.stands hc.stands, h.ordered hc.ordered, h.finish.trans hc.finish⟩

theorem stopBefore_eq {front : List Lexeme} {last : Lexeme}
    (h : c.Trace (front ++ [last]) d) : c.stopBefore d = last.stop := by
  have htake : c.rest.take (c.rest.length - d.rest.length) = front ++ [last] := by
    rw [h.rest, List.length_append, Nat.add_sub_cancel, List.take_left]
  simp [stopBefore, htake]

/-- What stands behind the lexemes that were passed starts behind the last of them. -/
theorem Trace.stop_le (h : c.Trace u d) (hc : c.Within cs) : ∀ l ∈ u, l.stop ≤ d.position := by
  intro l hl
  rcases d.points_position with ⟨l', hl', hstart⟩ | hfinish
  · rw [← hstart]
    have hordered := hc.ordered
    rw [Ordered, h.rest] at hordered
    exact (List.pairwise_append.1 hordered).2.2 l hl l' hl'
  · rw [hfinish, h.finish, hc.finish]
    exact (hc.stands l (h.mem hl)).stop_le.2

/-- From `c` to `d` some of the text is passed behind the blanks, and as many brackets are open as
before. -/
structure Advances (c d : Cursor) : Prop where
  passes : c.position < c.stopBefore d
  before : c.stopBefore d ≤ d.position
  depth : d.depth = c.depth

theorem Took.advances (h : c.Took u d) (hc : c.Within cs) : c.Advances d := by
  obtain ⟨l, hl, hstart⟩ := h.position_mem
  obtain ⟨front, last, rfl⟩ : ∃ front last, u = front ++ [last] :=
    ⟨_, _, (List.dropLast_concat_getLast (List.ne_nil_of_mem hl)).symm⟩
  have hlast : last ∈ front ++ [last] := List.mem_append_right _ (.head _)
  have hstop : c.stopBefore d = last.stop := stopBefore_eq h.toTrace
  have hsize := (hc.stands l (h.mem hl)).stop_le.1
  have hsize' := (hc.stands last (h.mem hlast)).stop_le.1
  refine ⟨?_, ?_, h.depth⟩
  · rw [hstop, ← hstart]
    rcases List.mem_append.1 hl with hfront | heq
    · have hordered := hc.ordered
      rw [Ordered, h.rest] at hordered
      have hle := (List.pairwise_append.1 (List.pairwise_append.1 hordered).1).2.2 l hfront last
        (.head _)
      omega
    · rwa [List.mem_singleton.1 heq] at hsize ⊢
  · rw [hstop]
    exact h.toTrace.stop_le hc last hlast

/-- A round that takes something ends further on. -/
theorem Took.advanced (h : c.Took u d) (hc : c.Within cs) : Watched.advanced c d = .ok () :=
  if_pos (Nat.lt_of_lt_of_le (h.advances hc).passes (h.advances hc).before)

end Cursor

namespace Watched

open Cursor Halt

/-! ## One step under watch -/

/-- A rule under watch that reads the same, and then what is read behind it. -/
theorem plain_bind {c d : Cursor} {β γ : Type} {T : Cursor → List Lexeme → Cursor → Prop}
    {Q : List Lexeme → β → Prop} {m : Except SyntaxError (Parsed d β)}
    {f : Parsed d β → Except SyntaxError (Parsed c γ)} {w : Except Halt (β × Cursor)}
    {g : β × Cursor → Except Halt (γ × Cursor)} (hw : w = plain m) (hm : Traced T Q m)
    (hf : ∀ p used, T d used p.next → Q used p.value → g (p.value, p.next) = plain (f p)) :
    (w >>= g) = plain (m >>= f) := by
  subst hw
  cases hm' : m with
  | error e => rfl
  | ok p =>
    obtain ⟨used, htook, hQ⟩ := hm.ok p hm'
    exact hf p used htook hQ

theorem shallower_eq {c : Cursor} {p : Parsed c Unit} (h : 0 < p.next.depth) :
    shallower p.next = .ok ((), p.closed.next) := if_neg (by omega)

theorem expectClosing_eq (c : Cursor) {s : Char} (hs : s ≠ '"' ∧ s ≠ '\'') (h : 0 < c.depth) :
    expectClosing c s = plain (c.expectClosing s) := by
  unfold expectClosing Cursor.expectClosing
  cases hm : c.expect s with
  | error e => rfl
  | ok p =>
    obtain ⟨used, htook, -⟩ := (c.traced_expect hs).ok p hm
    exact shallower_eq (htook.depth ▸ h)

/-- A closing bracket, and then what is read behind it. -/
theorem closing_bind (c : Cursor) {d : Cursor} {s : Char} {γ : Type}
    {f : Parsed c Unit → Except SyntaxError (Parsed d γ)}
    {g : Unit × Cursor → Except Halt (γ × Cursor)} (hs : s ≠ '"' ∧ s ≠ '\'') (h : 0 < c.depth)
    (hf : ∀ p used, c.Shut used p.next → g ((), p.next) = plain (f p)) :
    (expectClosing c s >>= g) = plain (c.expectClosing s >>= f) :=
  plain_bind (expectClosing_eq c hs h) (c.traced_expectClosing hs) fun p used h _ => hf p used h

/-! ## Expressions

The induction is on the budget. A nested call starts with fewer lexemes before it, or with as many
and a rule that binds tighter; `16 * c.rest.length` and the rank of the rule count both, as they do
for the rules of the grammar. -/

section

variable {cs : List Char}

mutual

theorem expression_eq (n : Nat) (c : Cursor) (hc : c.Within cs)
    (hn : 16 * c.rest.length + 14 < n) : expression n c = plain (BarScript.expression c) := by
  cases n with
  | zero => omega
  | succ n =>
    rw [expression, BarScript.expression]
    have hchain : 16 * c.rest.length + Tier.or.rank < n := by
      rw [Tier.rank]
      omega
    refine plain_bind (chain_eq n .or c hc hchain) (traced_chain .or c hc.stands)
      fun cond u₁ h₁ _ => ?_
    have := cond.later
    dsimp only
    cases hmark : cond.next.symbol? '?' with
    | none => rfl
    | some mark =>
      have := mark.opened.later
      obtain ⟨u₂, h₂⟩ := took_symbol? (by decide) hmark
      have hc₂ := (h₁.toTrace.trans h₂.toTrace.opened).within hc
      refine plain_bind (expression_eq n _ hc₂ (by omega)) (traced_expression _ hc₂.stands)
        fun yes u₃ h₃ _ => ?_
      have := yes.later
      have hc₃ := h₃.toTrace.within hc₂
      have hdepth : 0 < yes.next.depth := h₃.depth ▸ Nat.succ_pos _
      refine closing_bind yes.next (by decide) hdepth fun colon u₄ h₄ => ?_
      have := colon.later
      have hc₄ := h₄.toTrace.within hc₃
      exact plain_bind (expression_eq n colon.next hc₄ (by omega))
        (traced_expression _ hc₄.stands) fun no u₅ h₅ _ => rfl
termination_by n

theorem chain_eq (n : Nat) (t : Tier) (c : Cursor) (hc : c.Within cs)
    (hn : 16 * c.rest.length + t.rank < n) : chain n t c = plain (BarScript.chain t c) := by
  cases n with
  | zero => omega
  | succ n =>
    rw [chain, BarScript.chain]
    have hoperand : 16 * c.rest.length + t.rank - 1 < n := by
      cases t <;> rw [Tier.rank] at hn ⊢ <;> omega
    refine plain_bind (operand_eq n t c hc hoperand) (traced_operand t c hc.stands)
      fun first u h _ => ?_
    have := first.later
    exact chainFrom_eq n t c hc first h (by omega)
termination_by n

theorem chainFrom_eq (n : Nat) (t : Tier) (c : Cursor) (hc : c.Within cs) (left : Parsed c Expr)
    {u : List Lexeme} (h : c.Took u left.next) (hn : 16 * left.next.rest.length + 15 < n) :
    chainFrom n t left.value left.next = plain (BarScript.chainFrom t c left) := by
  cases n with
  | zero => omega
  | succ n =>
    rw [chainFrom, BarScript.chainFrom]
    cases hop : t.op? left.next with
    | none => rfl
    | some op =>
      have := op.later
      obtain ⟨u₂, h₂⟩ := Tier.took_op? hop
      have hc₁ := h.toTrace.within hc
      have hc₂ := h₂.toTrace.within hc₁
      have hoperand : 16 * op.next.rest.length + t.rank - 1 < n := by
        cases t <;> rw [Tier.rank] <;> omega
      refine plain_bind (operand_eq n t _ hc₂ hoperand) (traced_operand t _ hc₂.stands)
        fun right u₃ h₃ _ => ?_
      have := right.later
      dsimp only
      rw [(h₂.trans h₃).advanced hc₁]
      refine chainFrom_eq n t c hc (left.andThen (op.andThen (right.map fun r =>
        .binary op.value left.value r))) (h.trans (h₂.trans h₃)) ?_
      simp only [Parsed.next_andThen, Parsed.next_map]
      omega
termination_by n

theorem operand_eq (n : Nat) (t : Tier) (c : Cursor) (hc : c.Within cs)
    (hn : 16 * c.rest.length + t.rank - 1 < n) :
    operand n t c = plain (BarScript.operand t c) := by
  cases n with
  | zero => omega
  | succ n =>
    rw [operand.eq_def, BarScript.operand.eq_def]
    dsimp only
    cases t with
    | or => exact chain_eq n .and c hc (by simp only [Tier.rank] at *; omega)
    | and => exact negation_eq n c hc (by simp only [Tier.rank] at *; omega)
    | comparison => exact chain_eq n .sum c hc (by simp only [Tier.rank] at *; omega)
    | sum => exact chain_eq n .product c hc (by simp only [Tier.rank] at *; omega)
    | product => exact signed_eq n c hc (by simp only [Tier.rank] at *; omega)
termination_by n

theorem negation_eq (n : Nat) (c : Cursor) (hc : c.Within cs) (hn : 16 * c.rest.length + 9 < n) :
    negation n c = plain (BarScript.negation c) := by
  cases n with
  | zero => omega
  | succ n =>
    rw [negation, BarScript.negation]
    cases hp : c.keyword? "not" with
    | none => exact chain_eq n .comparison c hc (by simp only [Tier.rank]; omega)
    | some p =>
      have := p.later
      obtain ⟨u, h⟩ := took_keyword? hp
      have hc₁ := h.toTrace.within hc
      exact plain_bind (negation_eq n _ hc₁ (by omega)) (traced_negation _ hc₁.stands)
        fun e u₂ h₂ _ => rfl
termination_by n

theorem signed_eq (n : Nat) (c : Cursor) (hc : c.Within cs) (hn : 16 * c.rest.length + 2 < n) :
    signed n c = plain (BarScript.signed c) := by
  cases n with
  | zero => omega
  | succ n =>
    rw [signed, BarScript.signed]
    cases hminus : c.symbol? '-' with
    | some p =>
      have := p.later
      obtain ⟨u, h⟩ := took_symbol? (by decide) hminus
      have hc₁ := h.toTrace.within hc
      exact plain_bind (signed_eq n _ hc₁ (by omega)) (traced_signed _ hc₁.stands)
        fun e u₂ h₂ _ => rfl
    | none =>
      cases hplus : c.symbol? '+' with
      | some p =>
        have := p.later
        obtain ⟨u, h⟩ := took_symbol? (by decide) hplus
        have hc₁ := h.toTrace.within hc
        have hrest := signed_eq n p.next hc₁ (by omega)
        dsimp only
        rw [hrest]
        cases BarScript.signed p.next <;> rfl
      | none =>
        refine plain_bind (primary_eq n c hc (by omega)) (traced_primary c hc.stands)
          fun e u h _ => ?_
        have := e.later
        exact historyFrom_eq n c hc e h (by omega)
termination_by n

theorem historyFrom_eq (n : Nat) (c : Cursor) (hc : c.Within cs) (target : Parsed c Expr)
    {u : List Lexeme} (h : c.Took u target.next) (hn : 16 * target.next.rest.length + 15 < n) :
    historyFrom n target.value target.next = plain (BarScript.historyFrom c target) := by
  cases n with
  | zero => omega
  | succ n =>
    rw [historyFrom, BarScript.historyFrom]
    cases hbracket : target.next.symbol? '[' with
    | none => rfl
    | some bracket =>
      have := bracket.opened.later
      obtain ⟨u₂, h₂⟩ := took_symbol? (by decide) hbracket
      have hc₁ := h.toTrace.within hc
      have hc₂ := h₂.toTrace.opened.within hc₁
      dsimp only
      refine plain_bind (expression_eq n _ hc₂ (by omega)) (traced_expression _ hc₂.stands)
        fun offset u₃ h₃ _ => ?_
      have := offset.later
      have hdepth : 0 < offset.next.depth := h₃.depth ▸ Nat.succ_pos _
      refine closing_bind offset.next (by decide) hdepth fun closing u₄ h₄ => ?_
      have := closing.later
      dsimp only
      rw [(h₂.bracketed (h₃.shut h₄)).advanced hc₁]
      refine historyFrom_eq n c hc (target.andThen (bracket.opened.andThen (offset.andThen
        (closing.map fun _ => .history target.value offset.value target.next.position))))
        (h.trans (h₂.bracketed (h₃.shut h₄))) ?_
      simp only [Parsed.next_andThen, Parsed.next_map]
      omega
termination_by n

theorem primary_eq (n : Nat) (c : Cursor) (hc : c.Within cs) (hn : 16 * c.rest.length + 1 < n) :
    primary n c = plain (BarScript.primary c) := by
  cases n with
  | zero => omega
  | succ n =>
    rw [primary, BarScript.primary]
    cases hp : c.pop? with
    | none => rfl
    | some p =>
      dsimp only
      cases htoken : p.value.token with
      | number l => rfl
      | text t => rfl
      | newline => rfl
      | word w =>
        by_cases htrue : w = "true"
        · subst htrue
          rfl
        by_cases hfalse : w = "false"
        · subst hfalse
          rfl
        -- a name: the rules for truth values do not apply
        simp only
        refine plain_bind rfl (c.traced_dottedName hc.stands) fun name u h _ => ?_
        have := name.later
        have hc₁ := h.toTrace.within hc
        dsimp only
        split
        · refine plain_bind rfl (name.next.traced_expect (by decide)) fun bracket u₂ h₂ _ => ?_
          have := bracket.opened.later
          have hc₂ := h₂.toTrace.opened.within hc₁
          exact plain_bind (arguments_eq n bracket.opened.next hc₂ (Nat.succ_pos _) (by omega))
            (traced_arguments _ hc₂.stands) fun args u₃ h₃ _ => rfl
        · split <;> rfl
      | symbol s =>
        by_cases hbracket : s = '('
        · subst hbracket
          have := p.opened.later
          obtain ⟨u, h, -⟩ := took_pop? hp (by rw [htoken]; rintro ⟨⟩)
            (by rw [Lexeme.IsOpen, htoken]; decide)
          have hc₁ := h.toTrace.opened.within hc
          refine plain_bind (expression_eq n _ hc₁ (by omega)) (traced_expression _ hc₁.stands)
            fun e u₂ h₂ _ => ?_
          have hdepth : 0 < e.next.depth := h₂.depth ▸ Nat.succ_pos _
          exact closing_bind e.next (by decide) hdepth fun closing u₃ h₃ => rfl
        by_cases hpoint : s = '.'
        · subst hpoint
          rfl
        by_cases hdouble : s = '"'
        · subst hdouble
          rfl
        by_cases hsingle : s = '\''
        · subst hsingle
          rfl
        simp only [Token.symbol.injEq, hbracket, hpoint, hdouble, hsingle, imp_self]
termination_by n

theorem arguments_eq (n : Nat) (c : Cursor) (hc : c.Within cs) (hdepth : 0 < c.depth)
    (hn : 16 * c.rest.length + 16 < n) : arguments n c = plain (BarScript.arguments c) := by
  cases n with
  | zero => omega
  | succ n =>
    rw [arguments, BarScript.arguments]
    cases hp : c.symbol? ')' with
    | some p =>
      obtain ⟨u, h⟩ := took_symbol? (by decide) hp
      have hshallower : shallower p.next = .ok ((), p.closed.next) :=
        shallower_eq (h.depth ▸ hdepth)
      dsimp only
      rw [hshallower]
      rfl
    | none =>
      refine plain_bind (argument_eq n c hc (by omega)) (traced_argument c hc.stands)
        fun arg u h _ => ?_
      have := arg.later
      dsimp only
      have hc₁ := h.toTrace.within hc
      cases hcomma : arg.next.symbol? ',' with
      | some comma =>
        have := comma.later
        obtain ⟨u₂, h₂⟩ := took_symbol? (by decide) hcomma
        have hc₂ := h₂.toTrace.within hc₁
        have hdepth₂ : 0 < comma.next.depth := (h.trans h₂).depth ▸ hdepth
        dsimp only
        rw [(h.trans h₂).advanced hc]
        exact plain_bind (arguments_eq n _ hc₂ hdepth₂ (by omega))
          (traced_arguments _ hc₂.stands) fun more u₃ h₃ _ => rfl
      | none =>
        have hdepth₁ : 0 < arg.next.depth := h.depth ▸ hdepth
        exact closing_bind arg.next (by decide) hdepth₁ fun closing u₂ h₂ => rfl
termination_by n

theorem argument_eq (n : Nat) (c : Cursor) (hc : c.Within cs) (hn : 16 * c.rest.length + 15 < n) :
    argument n c = plain (BarScript.argument c) := by
  cases n with
  | zero => omega
  | succ n =>
    rw [argument, BarScript.argument]
    cases hname : c.argName? with
    | some name =>
      have := name.later
      obtain ⟨u, h⟩ := took_argName? hc.stands hname
      have hc₁ := h.toTrace.within hc
      exact plain_bind (expression_eq n _ hc₁ (by omega)) (traced_expression _ hc₁.stands)
        fun value u₂ h₂ _ => rfl
    | none =>
      exact plain_bind (expression_eq n c hc (by omega)) (traced_expression c hc.stands)
        fun value u h _ => rfl
termination_by n

end

/-! ## Statements -/

theorem fieldValue_eq (n : Nat) (c : Cursor) (hc : c.Within cs) {key : Parsed c String}
    {u : List Lexeme} (h : c.Took u key.next) (hn : 16 * c.rest.length < n) :
    fieldValue n c key.value key.next = plain (c.fieldValue key) := by
  rw [fieldValue, Cursor.fieldValue]
  cases hcolon : key.next.plainSymbol? ':' with
  | none => rfl
  | some colon =>
    have := key.later
    have := colon.later
    obtain ⟨u₂, h₂⟩ := took_plainSymbol? (by decide) hcolon
    have hc₂ := (h.trans h₂).toTrace.within hc
    dsimp only
    rw [expression_eq n _ hc₂ (by omega)]
    cases BarScript.expression colon.next <;> rfl

theorem fields_eq (n : Nat) (seen : List String) (c : Cursor) (hc : c.Within cs)
    (hdepth : 0 < c.depth) (hn : 16 * c.rest.length + 14 < n) :
    fields n seen c = plain (Cursor.fields seen c) := by
  induction n generalizing seen c with
  | zero => omega
  | succ n ih =>
    rw [fields, Cursor.fields]
    cases hp : c.symbol? '\x7d' with
    | some p =>
      obtain ⟨u, h⟩ := took_symbol? (by decide) hp
      have hshallower : shallower p.next = .ok ((), p.closed.next) :=
        shallower_eq (h.depth ▸ hdepth)
      dsimp only
      rw [hshallower]
      rfl
    | none =>
      refine plain_bind rfl (c.traced_key hc.stands) fun key u h hkey => ?_
      have := key.later
      dsimp only
      split
      · rfl
      refine plain_bind (fieldValue_eq n c hc h (by omega)) (c.traced_fieldValue hc.stands h hkey)
        fun value u₂ h₂ _ => ?_
      have := value.later
      dsimp only
      cases hcomma : value.next.symbol? ',' with
      | some comma =>
        have := comma.later
        obtain ⟨u₃, h₃⟩ := took_symbol? (by decide) hcomma
        have hc₃ := (h₂.trans h₃).toTrace.within hc
        have hdepth₃ : 0 < comma.next.depth := (h₂.trans h₃).depth ▸ hdepth
        dsimp only
        rw [(h₂.trans h₃).advanced hc]
        exact plain_bind (ih _ _ hc₃ hdepth₃ (by omega))
          (traced_fields _ _ hc₃.stands) fun more u₄ h₄ _ => rfl
      | none =>
        have hdepth₂ : 0 < value.next.depth := h₂.depth ▸ hdepth
        exact closing_bind value.next (by decide) hdepth₂ fun closing u₃ h₃ => rfl

theorem returned_eq (n : Nat) (c : Cursor) (hc : c.Within cs) (hn : 16 * c.rest.length + 14 < n) :
    returned n c = plain c.returned := by
  rw [returned, Cursor.returned]
  cases hbrace : c.symbol? '\x7b' with
  | some brace =>
    have := brace.opened.later
    obtain ⟨u, h⟩ := took_symbol? (by decide) hbrace
    have hc₁ := h.toTrace.opened.within hc
    exact plain_bind (fields_eq n [] _ hc₁ (Nat.succ_pos _) (by omega))
      (traced_fields _ _ hc₁.stands) fun fs u₂ h₂ _ => rfl
  | none =>
    exact plain_bind (expression_eq n c hc hn) (traced_expression c hc.stands)
      fun e u h _ => rfl

theorem names_eq (n : Nat) (c : Cursor) (hc : c.Within cs) (hn : 16 * c.rest.length + 14 < n) :
    names n c = plain c.names := by
  induction n generalizing c with
  | zero => omega
  | succ n ih =>
    rw [names, Cursor.names]
    refine plain_bind rfl (c.traced_name hc.stands) fun name u h _ => ?_
    have := name.later
    dsimp only
    cases hcomma : name.next.symbol? ',' with
    | none => rfl
    | some comma =>
      have := comma.later
      obtain ⟨u₂, h₂⟩ := took_symbol? (by decide) hcomma
      have hc₂ := (h.trans h₂).toTrace.within hc
      dsimp only
      rw [(h.trans h₂).advanced hc]
      exact plain_bind (ih _ hc₂ (by omega)) (comma.next.traced_names hc₂.stands)
        fun more u₃ h₃ _ => rfl

theorem tupleCall_eq (n : Nat) (c : Cursor) (hc : c.Within cs) (hn : 16 * c.rest.length + 14 < n) :
    tupleCall n c = plain c.tupleCall := by
  refine plain_bind (expression_eq n c hc hn) (traced_expression c hc.stands) fun e u h _ => ?_
  dsimp only
  cases e.value <;> rfl

theorem tuple_eq (n : Nat) (c : Cursor) (position : Nat) (hc : c.Within cs) (hdepth : 0 < c.depth)
    (hn : 16 * c.rest.length + 14 < n) : tuple n c position = plain (c.tuple position) := by
  refine plain_bind (names_eq n c hc hn) (c.traced_names hc.stands) fun names u h _ => ?_
  have := names.later
  have hdepth₁ : 0 < names.next.depth := h.depth ▸ hdepth
  refine closing_bind names.next (by decide) hdepth₁ fun closing u₂ h₂ => ?_
  have := closing.later
  have hc₂ := h₂.toTrace.within (h.toTrace.within hc)
  dsimp only
  cases hequals : closing.next.plainSymbol? '=' with
  | none => rfl
  | some equals =>
    have := equals.later
    obtain ⟨u₃, h₃⟩ := took_plainSymbol? (by decide) hequals
    have hc₃ := h₃.toTrace.within hc₂
    exact plain_bind (tupleCall_eq n _ hc₃ (by omega)) (equals.next.traced_tupleCall hc₃.stands)
      fun call u₄ h₄ _ => rfl

theorem declaration_eq (n : Nat) (c : Cursor) (kind : DeclKind) (position : Nat)
    (hc : c.Within cs) (hn : 16 * c.rest.length + 14 < n) :
    declaration n c kind position = plain (c.declaration kind position) := by
  obtain ⟨u, t, -⟩ := c.trace_skipType
  have hc₁ := t.within hc
  refine plain_bind rfl (traced_name _ hc₁.stands) fun name u₂ h₂ _ => ?_
  have hname : name.next.rest.length < c.rest.length := (c.typed name).later
  have hc₂ := h₂.toTrace.within hc₁
  dsimp only
  cases hequals : name.next.plainSymbol? '=' with
  | none => rfl
  | some equals =>
    have := equals.later
    obtain ⟨u₃, h₃⟩ := took_plainSymbol? (by decide) hequals
    have hc₃ := h₃.toTrace.within hc₂
    exact plain_bind (expression_eq n _ hc₃ (by omega)) (traced_expression _ hc₃.stands)
      fun value u₄ h₄ _ => rfl

theorem assignment?_eq (n : Nat) (c : Cursor) (position : Nat) (hc : c.Within cs)
    (hn : 16 * c.rest.length + 14 < n) :
    assignment? n c position = (c.assignment? position).map plain := by
  obtain ⟨u, t, -⟩ := c.trace_skipType
  have hc₁ := t.within hc
  rw [assignment?, Cursor.assignment?]
  cases hm : c.skipType.name with
  | error e => rfl
  | ok name =>
    obtain ⟨u₂, h₂, -⟩ := (traced_name _ hc₁.stands).ok name hm
    have hname : name.next.rest.length < c.rest.length := (c.typed name).later
    have hc₂ := h₂.toTrace.within hc₁
    dsimp only
    cases hsign : name.next.symbolEquals? ':' with
    | some sign =>
      have := sign.later
      obtain ⟨u₃, h₃⟩ := took_symbolEquals? (by decide) hsign
      have hc₃ := h₃.toTrace.within hc₂
      exact congrArg some (plain_bind (expression_eq n _ hc₃ (by omega))
        (traced_expression _ hc₃.stands) fun value u₄ h₄ _ => rfl)
    | none =>
      dsimp only
      cases hequals : name.next.plainSymbol? '=' with
      | none => rfl
      | some sign =>
        have := sign.later
        obtain ⟨u₃, h₃⟩ := took_plainSymbol? (by decide) hequals
        have hc₃ := h₃.toTrace.within hc₂
        exact congrArg some (plain_bind (expression_eq n _ hc₃ (by omega))
          (traced_expression _ hc₃.stands) fun value u₄ h₄ _ => rfl)

/-- What is read last, as read from further in front. -/
theorem plain_andThen {c : Cursor} {β γ : Type} (p : Parsed c β)
    (m : Except SyntaxError (Parsed p.next γ)) :
    plain (do let q ← m; return p.andThen q) = plain m := by
  cases m <;> rfl

theorem statement_eq (n : Nat) (c : Cursor) (hc : c.Within cs) (hn : 16 * c.rest.length + 14 < n) :
    statement n c = plain c.statement := by
  rw [statement, Cursor.statement]
  dsimp only
  cases hreturn : c.keyword? "return" with
  | some p =>
    have := p.later
    obtain ⟨u, h⟩ := took_keyword? hreturn
    have hc₁ := h.toTrace.within hc
    exact plain_bind (returned_eq n _ hc₁ (by omega)) (p.next.traced_returned hc₁.stands)
      fun value u₂ h₂ _ => rfl
  | none =>
  dsimp only
  cases hvar : c.keyword? "var" with
  | some p =>
    have := p.later
    obtain ⟨u, h⟩ := took_keyword? hvar
    have hc₁ := h.toTrace.within hc
    exact (declaration_eq n _ _ _ hc₁ (by omega)).trans (plain_andThen p _).symm
  | none =>
  dsimp only
  cases hconst : c.keyword? "const" with
  | some p =>
    have := p.later
    obtain ⟨u, h⟩ := took_keyword? hconst
    have hc₁ := h.toTrace.within hc
    exact (declaration_eq n _ _ _ hc₁ (by omega)).trans (plain_andThen p _).symm
  | none =>
  dsimp only
  cases hbracket : c.symbol? '[' with
  | some p =>
    have := p.opened.later
    obtain ⟨u, h⟩ := took_symbol? (by decide) hbracket
    have hc₁ := h.toTrace.opened.within hc
    exact (tuple_eq n _ _ hc₁ (Nat.succ_pos _) (by omega)).trans (plain_andThen p.opened _).symm
  | none =>
  dsimp only
  rw [assignment?_eq n c _ hc hn]
  cases c.assignment? c.position with
  | some m => rfl
  | none =>
    exact plain_bind (expression_eq n c hc hn) (traced_expression c hc.stands)
      fun e u h _ => rfl

end

/-! ## Rounds over lexemes and characters -/

/-- A lexeme starts in front of those behind it. -/
theorem start_lt_front {cs : List Char} {l : Lexeme} {ls : List Lexeme}
    (hstands : ∀ x ∈ l :: ls, x.Stands cs)
    (hordered : (l :: ls).Pairwise fun l l' => l.stop ≤ l'.start) :
    l.start < front (byteSize cs) ls := by
  obtain ⟨hlt, hle⟩ := (hstands l (.head _)).stop_le
  cases ls with
  | nil => exact Nat.lt_of_lt_of_le hlt hle
  | cons l' ls => exact Nat.lt_of_lt_of_le hlt ((List.pairwise_cons.1 hordered).1 l' (.head _))

/-- The lexemes that are passed over are those in front. -/
theorem passing_eq {cs : List Char} (p : Lexeme → Bool) (n : Nat) (ls : List Lexeme)
    (hstands : ∀ l ∈ ls, l.Stands cs) (hordered : ls.Pairwise fun l l' => l.stop ≤ l'.start)
    (hn : ls.length < n) : passing p (byteSize cs) n ls = .ok (ls.dropWhile p) := by
  induction ls generalizing n with
  | nil => cases n <;> [omega; rfl]
  | cons l ls ih =>
    cases n with
    | zero => omega
    | succ n =>
      have hmore := ih n (List.forall_mem_cons.1 hstands).2 (List.pairwise_cons.1 hordered).2
        (Nat.lt_of_succ_lt_succ hn)
      rw [passing, if_pos (start_lt_front hstands hordered), List.dropWhile_cons, hmore]
      split_ifs <;> rfl

/-- Every round takes a character, so that as many rounds are enough as there are characters. -/
theorem lexemes_eq (n start : Nat) (cs : List Char) (hn : cs.length < n) :
    lexemes n start cs = .ok (Token.lexemes start cs) := by
  induction n generalizing start cs with
  | zero => omega
  | succ n ih =>
    cases cs with
    | nil => rw [lexemes, Token.lexemes]
    | cons c cs =>
      rw [lexemes, Token.lexemes]
      obtain ⟨token, k⟩ := Token.munch c cs
      have hlt : start < start + byteSize (c :: cs.take k) :=
        Nat.lt_add_of_pos_right (Text.byteSize_pos (List.cons_ne_nil _ _))
      have hrest : (cs.drop k).length < n := by
        rw [List.length_drop]
        exact Nat.lt_of_le_of_lt (Nat.sub_le _ _) (Nat.lt_of_succ_lt_succ hn)
      dsimp only
      rw [if_neg (not_not.2 hlt), ih _ _ hrest]
      cases token <;> rfl

theorem length_lexemes_le (start : Nat) (cs : List Char) :
    (Token.lexemes start cs).length ≤ cs.length := by
  fun_induction Token.lexemes start cs with
  | case1 => exact Nat.le_refl _
  | case2 s c cs n stop more t hmunch ih =>
    rw [List.length_drop] at ih
    exact Nat.succ_le_succ (ih.trans (Nat.sub_le _ _))
  | case3 s c cs n stop more hmunch ih =>
    rw [List.length_drop] at ih
    exact (ih.trans (Nat.sub_le _ _)).trans (Nat.le_succ _)

/-! ## Whole texts -/

theorem statements_eq {cs : List Char} (n : Nat) (c : Cursor) (hc : c.Within cs)
    (hn : 16 * c.rest.length + 15 < n) : statements n c = c.statements.mapError .fault := by
  induction n generalizing c with
  | zero => omega
  | succ n ih =>
    have hpassing : passing separates c.finish n c.rest = .ok c.skipSeparators.rest := by
      rw [hc.finish]
      exact passing_eq separates n c.rest hc.stands hc.ordered (by omega)
    have hle : c.skipSeparators.rest.length ≤ c.rest.length := length_dropWhile_le ..
    obtain ⟨u, t⟩ := c.trace_skipSeparators
    have hc₁ := t.within hc
    have hstatement : statement n { c with rest := c.skipSeparators.rest } =
        plain c.skipSeparators.statement := statement_eq n c.skipSeparators hc₁ (by omega)
    rw [statements, Cursor.statements, hpassing]
    dsimp only [bind, Except.bind]
    split_ifs with hempty
    · rfl
    rw [hstatement]
    cases hs : c.skipSeparators.statement with
    | error e => rfl
    | ok s =>
      obtain ⟨u₂, h, -⟩ := (traced_statement _ hc₁.stands).ok s hs
      have := s.later
      have hc₂ := h.toTrace.within hc₁
      dsimp only [plain, bind, Except.bind]
      rw [(Took.behind t rfl h).advanced hc]
      dsimp only
      cases hend : endOfStatement s.next with
      | error e => rfl
      | ok _ =>
        dsimp only [Except.mapError]
        rw [ih _ hc₂ (by omega)]
        cases s.next.statements <;> rfl

/-- **Nothing stops the parser under watch** but a fault in the text. -/
theorem parse_eq (source : String) : parse source = (BarScript.parse source).mapError .fault := by
  have hlength := length_lexemes_le 0 source.toList
  rw [parse, lexemes_eq _ _ _ (Nat.lt_succ_self _)]
  exact statements_eq _ (ofText source) (within_ofText source)
    (by change 16 * (Token.lexemes 0 source.toList).length + 15 < _; omega)

end Watched

/-! ## Rules that succeed -/

namespace Cursor

variable {cs : List Char} {c : Cursor} {β : Type} {Q : List Lexeme → β → Prop}
variable {m : Except SyntaxError (Parsed c β)}

/-- A rule that succeeds gets on. -/
def Proceeds (m : Except SyntaxError (Parsed c β)) : Prop := ∀ p, m = .ok p → c.Advances p.next

theorem proceeds_of_traced (hc : c.Within cs) (h : Traced Took Q m) : Proceeds m := fun p hp => by
  obtain ⟨u, htook, -⟩ := h.ok p hp
  exact htook.advances hc

/-- Arguments with the parenthesis that opens them. -/
theorem advances_arguments (hc : c.Within cs) {bracket : Parsed c Unit}
    (hbracket : c.expect '(' = .ok bracket) {p : Parsed bracket.opened.next (List (Arg Expr))}
    (hp : arguments bracket.opened.next = .ok p) : c.Advances p.next := by
  obtain ⟨u, h, -⟩ := (c.traced_expect (by decide)).ok bracket hbracket
  obtain ⟨u₂, h₂, -⟩ := (traced_arguments _ (h.toTrace.opened.stands hc.stands)).ok p hp
  exact (h.bracketed h₂).advances hc

end Cursor

/-- **The parser ends.** Under watch it reads what it reads without, so that its calls are nested no
deeper than the budget allows, every round of a loop starts further on than the one before it, and
no bracket is closed that was not opened. Anywhere in the text, what is read by one of the main
rules ends further on than it starts, with as many brackets open as before; line ends within
brackets are passed in rounds that end. -/
theorem parser_ends (source : String) :
    Watched.parse source = (parse source).mapError .fault ∧
    ∀ c : Cursor, c.Within source.toList →
      Cursor.Proceeds (primary c) ∧ Cursor.Proceeds (expression c) ∧ Cursor.Proceeds c.statement ∧
      (∀ bracket, c.expect '(' = .ok bracket →
        ∀ p, arguments bracket.opened.next = .ok p → c.Advances p.next) ∧
      (0 < c.depth → Watched.passing (·.token == .newline) c.finish (c.rest.length + 1) c.rest =
        .ok c.skip.rest) := by
  refine ⟨Watched.parse_eq source, fun c hc => ⟨?_, ?_, ?_, ?_, fun hdepth => ?_⟩⟩
  · exact Cursor.proceeds_of_traced hc (traced_primary c hc.stands)
  · exact Cursor.proceeds_of_traced hc (traced_expression c hc.stands)
  · exact Cursor.proceeds_of_traced hc (c.traced_statement hc.stands)
  · exact fun bracket hbracket p hp => Cursor.advances_arguments hc hbracket hp
  · rw [hc.finish, Cursor.skip, if_pos hdepth]
    exact Watched.passing_eq _ _ _ hc.stands hc.ordered (Nat.lt_succ_self _)

/-- A call over two lines, with a comma behind its last argument and a comment at the end. -/
def overLines : String := "x = f(a,\n) // end"

theorem parser_ends_overLines :
    parse overLines = .ok [.declare .binding "x" (.call ⟨"f", [⟨none, .name "a" 6, 6⟩], 4⟩) 0] ∧
    Watched.parse overLines =
      .ok [.declare .binding "x" (.call ⟨"f", [⟨none, .name "a" 6, 6⟩], 4⟩) 0] := by
  have hparse : parse overLines =
      .ok [.declare .binding "x" (.call ⟨"f", [⟨none, .name "a" 6, 6⟩], 4⟩) 0] := by
    with_unfolding_all rfl
  refine ⟨hparse, ?_⟩
  rw [(parser_ends overLines).1, hparse]
  rfl

end BarScript
