import BarScript.Proofs.Relocation

/-!
# Expressions move with their text

What the grammar reads from a cursor it reads from the relocated cursor, with its positions moved,
if something follows or no bracket is open (`Relocation.expression_cursor`). The proof goes along
the rules: what a rule looks for in vain it looks for in a sealed cursor, because something is read
behind or the cursor behind the rule is sealed.
-/

namespace BarScript

/-! ## Moved trees -/

mutual

/-- The expression with its positions moved by `f`. -/
def Expr.relocated (f : Nat → Nat) : Expr → Expr
  | .number l => .number l
  | .flag b => .flag b
  | .text s => .text s
  | .na => .na
  | .name n p => .name n (f p)
  | .history target offset p => .history (target.relocated f) (offset.relocated f) (f p)
  | .unary op e => .unary op (e.relocated f)
  | .binary op l r => .binary op (l.relocated f) (r.relocated f)
  | .ternary c y n => .ternary (c.relocated f) (y.relocated f) (n.relocated f)
  | .call ⟨name, args, p⟩ => .call ⟨name, Arg.allRelocated f args, f p⟩

def Arg.allRelocated (f : Nat → Nat) : List (Arg Expr) → List (Arg Expr)
  | [] => []
  | ⟨name, value, p⟩ :: as => ⟨name, value.relocated f, f p⟩ :: Arg.allRelocated f as

end

def Arg.relocated (f : Nat → Nat) (a : Arg Expr) : Arg Expr :=
  ⟨a.name, a.value.relocated f, f a.position⟩

theorem Expr.relocated_negated (f : Nat → Nat) (e : Expr) :
    e.negated.relocated f = (e.relocated f).negated := by
  cases e <;> rfl

namespace Relocation

variable {T : Relocation} {c : Cursor}

/-- Before operators are looked for, the cursor is sealed. -/
theorem sealed_of_chainFrom {t : Tier} {left p : Parsed c Expr} (h : chainFrom t c left = .ok p)
    (hp : p.next.Sealed) : left.next.Sealed := by
  rw [chainFrom] at h
  split at h
  · cases h
    exact hp
  · exact (keeps_op? t).sealed ‹_›

theorem sealed_of_historyFrom {target p : Parsed c Expr} (h : historyFrom c target = .ok p)
    (hp : p.next.Sealed) : target.next.Sealed := by
  rw [historyFrom] at h
  split at h
  · cases h
    exact hp
  · exact (keeps_symbol? '[').sealed ‹_›

section

variable (T : Relocation)

mutual

theorem expression_cursor (c : Cursor) (hc : T.Fits c) {p : Parsed c Expr}
    (h : expression c = .ok p) (hp : p.next.Sealed) :
    expression (T.cursor c) = .ok (T.parsed (Expr.relocated T.place) p) := by
  rw [expression] at h
  obtain ⟨cond, hcond, h⟩ := ok_of_bind h
  have := cond.later
  have h₁ := turns_chain .or c cond hcond
  have fits₁ := T.fits hc h₁ (by decide)
  dsimp only at h
  split at h
  · rename_i hmark
    cases h
    exact expression_of_chain (chain_cursor .or c hc hcond hp)
      ((keeps_symbol? '?').missed T fits₁ hp hmark)
  · rename_i mark hmark
    have := mark.opened.later
    have hs₁ := (keeps_symbol? '?').sealed hmark
    obtain ⟨yes, hyes, h⟩ := ok_of_bind h
    obtain ⟨colon, hcolon, h⟩ := ok_of_bind h
    obtain ⟨no, hno, h⟩ := ok_of_bind h
    have := yes.later
    have := colon.later
    cases h
    have h₂ := h₁.trans (Cursor.passes_symbol? hmark).opened
    have h₃ := h₂.trans (turns_expression _ yes hyes)
    have hclosing := Cursor.turns_expectClosing _ ':' h₃.depth_pos colon hcolon
    have h₄ := h₃.trans hclosing
    have fits₂ := T.fits hc h₂ (by decide)
    have fits₃ := T.fits hc h₃ (by decide)
    have fits₄ := T.fits hc h₄ (by decide)
    exact expression_ternary (chain_cursor .or c hc hcond hs₁)
      ((keeps_symbol? '?').found T fits₁ hmark)
      (expression_cursor _ fits₂ hyes hclosing.sealed) (T.expectClosing_cursor fits₃ hcolon)
      (expression_cursor _ fits₄ hno hp)
termination_by 16 * c.rest.length + 14
decreasing_by all_goals ((try simp only [Tier.rank]); omega)

theorem chain_cursor (t : Tier) (c : Cursor) (hc : T.Fits c) {p : Parsed c Expr}
    (h : chain t c = .ok p) (hp : p.next.Sealed) :
    chain t (T.cursor c) = .ok (T.parsed (Expr.relocated T.place) p) := by
  rw [chain] at h
  obtain ⟨first, hfirst, h⟩ := ok_of_bind h
  have := first.later
  have h₁ := turns_operand t c first hfirst
  rw [chain_of_operand (operand_cursor t c hc hfirst (sealed_of_chainFrom h hp))]
  exact chainFrom_cursor t c hc h h₁ hp
termination_by 16 * c.rest.length + t.rank
decreasing_by all_goals (cases t <;> (try simp only [Tier.rank]) <;> omega)

theorem chainFrom_cursor (t : Tier) (c : Cursor) (hc : T.Fits c) {left p : Parsed c Expr}
    (h : chainFrom t c left = .ok p) (h₁ : c.Passes 0 0 left.next) (hp : p.next.Sealed) :
    chainFrom t (T.cursor c) (T.parsed (Expr.relocated T.place) left) =
      .ok (T.parsed (Expr.relocated T.place) p) := by
  have fits₁ := T.fits hc h₁ (by decide)
  rw [chainFrom] at h
  split at h
  · rename_i hop
    cases h
    exact chainFrom_none ((keeps_op? t).missed T fits₁ hp hop)
  · rename_i op hop
    have := op.later
    obtain ⟨right, hright, h⟩ := ok_of_bind h
    have := right.later
    have h₂ := h₁.trans (Tier.passes_op? hop)
    have h₃ := h₂.trans (turns_operand t _ right hright)
    have fits₂ := T.fits hc h₂ (by decide)
    have hs := sealed_of_chainFrom h hp
    rw [chainFrom_some ((keeps_op? t).found T fits₁ hop) (operand_cursor t _ fits₂ hright hs)]
    exact chainFrom_cursor t c hc h h₃ hp
termination_by 16 * left.next.rest.length + 15
decreasing_by all_goals (cases t <;>
  (try simp only [Tier.rank, Parsed.next_andThen, Parsed.next_map]) <;> omega)

theorem operand_cursor (t : Tier) (c : Cursor) (hc : T.Fits c) :
    ∀ {p : Parsed c Expr}, operand t c = .ok p → p.next.Sealed →
      operand t (T.cursor c) = .ok (T.parsed (Expr.relocated T.place) p) := by
  rw [operand.eq_def, operand.eq_def]
  cases t with
  | or => exact chain_cursor .and c hc
  | and => exact negation_cursor c hc
  | comparison => exact chain_cursor .sum c hc
  | sum => exact chain_cursor .product c hc
  | product => exact signed_cursor c hc
termination_by 16 * c.rest.length + t.rank - 1
decreasing_by all_goals ((try simp only [Tier.rank]); omega)

theorem negation_cursor (c : Cursor) (hc : T.Fits c) {p : Parsed c Expr}
    (h : negation c = .ok p) (hp : p.next.Sealed) :
    negation (T.cursor c) = .ok (T.parsed (Expr.relocated T.place) p) := by
  have hs := (turns_negation c p h).sealed
  rw [negation] at h
  split at h
  · rename_i q hq
    have := q.later
    obtain ⟨e, he, h⟩ := ok_of_bind h
    cases h
    have fits := T.fits hc (Cursor.passes_keyword? hq) (by decide)
    exact negation_not ((keeps_keyword? "not").found T hc hq) (negation_cursor _ fits he hp)
  · rename_i hnone
    rw [negation_chain ((keeps_keyword? "not").missed T hc hs hnone)]
    exact chain_cursor .comparison c hc h hp
termination_by 16 * c.rest.length + 9
decreasing_by all_goals ((try simp only [Tier.rank]); omega)

theorem signed_cursor (c : Cursor) (hc : T.Fits c) {p : Parsed c Expr}
    (h : signed c = .ok p) (hp : p.next.Sealed) :
    signed (T.cursor c) = .ok (T.parsed (Expr.relocated T.place) p) := by
  have hs := (turns_signed c p h).sealed
  rw [signed] at h
  split at h
  · rename_i q hq
    have := q.later
    obtain ⟨e, he, h⟩ := ok_of_bind h
    cases h
    have fits := T.fits hc (Cursor.passes_symbol? hq) (by decide)
    have hsigned := signed_minus ((keeps_symbol? '-').found T hc hq) (signed_cursor _ fits he hp)
    rw [hsigned]
    exact congrArg (fun x => Except.ok (Parsed.mk x _ _)) (e.value.relocated_negated _).symm
  split at h
  · rename_i hminus _ q hq
    have := q.later
    obtain ⟨e, he, h⟩ := ok_of_bind h
    cases h
    have fits := T.fits hc (Cursor.passes_symbol? hq) (by decide)
    exact signed_plus ((keeps_symbol? '-').missed T hc hs hminus)
      ((keeps_symbol? '+').found T hc hq) (signed_cursor _ fits he hp)
  · rename_i hminus _ hplus
    obtain ⟨e, he, h⟩ := ok_of_bind h
    have := e.later
    have h₁ := turns_primary c e he
    rw [signed_bracketed ((keeps_symbol? '-').missed T hc hs hminus)
      ((keeps_symbol? '+').missed T hc hs hplus),
      bracketed_of_primary (primary_cursor c hc he (sealed_of_historyFrom h hp))]
    exact historyFrom_cursor c hc h h₁ hp
termination_by 16 * c.rest.length + 2

theorem historyFrom_cursor (c : Cursor) (hc : T.Fits c) {target p : Parsed c Expr}
    (h : historyFrom c target = .ok p) (h₁ : c.Passes 0 0 target.next) (hp : p.next.Sealed) :
    historyFrom (T.cursor c) (T.parsed (Expr.relocated T.place) target) =
      .ok (T.parsed (Expr.relocated T.place) p) := by
  have fits₁ := T.fits hc h₁ (by decide)
  rw [historyFrom] at h
  split at h
  · rename_i hbracket
    cases h
    exact historyFrom_none ((keeps_symbol? '[').missed T fits₁ hp hbracket)
  · rename_i bracket hbracket
    have := bracket.opened.later
    obtain ⟨offset, hoffset, h⟩ := ok_of_bind h
    obtain ⟨closing, hclosing, h⟩ := ok_of_bind h
    have := offset.later
    have := closing.later
    have hopening := Cursor.passes_symbol? hbracket
    have h₂ := h₁.trans hopening.opened
    have h₃ := h₂.trans (turns_expression _ offset hoffset)
    have hclosed := Cursor.turns_expectClosing _ ']' h₃.depth_pos closing hclosing
    have h₄ := h₃.trans hclosed
    have fits₂ := T.fits hc h₂ (by decide)
    have fits₃ := T.fits hc h₃ (by decide)
    obtain ⟨l, hl⟩ := hopening.pop?
    have hposition : (T.parsed (Expr.relocated T.place) target).next.position =
        T.place target.next.position := T.position_cursor fits₁ hl
    have hbracket' : (T.parsed (Expr.relocated T.place) target).next.symbol? '[' =
        some (T.parsed id bracket) := (keeps_symbol? '[').found T fits₁ hbracket
    rw [historyFrom_some hbracket' (expression_cursor _ fits₂ hoffset hclosed.sealed)
      (T.expectClosing_cursor fits₃ hclosing), hposition]
    exact historyFrom_cursor c hc h h₄ hp
termination_by 16 * target.next.rest.length + 15
decreasing_by all_goals ((try simp only [Parsed.next_andThen, Parsed.next_map]); omega)

theorem primary_cursor (c : Cursor) (hc : T.Fits c) {p : Parsed c Expr}
    (h : primary c = .ok p) (hp : p.next.Sealed) :
    primary (T.cursor c) = .ok (T.parsed (Expr.relocated T.place) p) := by
  rw [primary] at h ⊢
  split at h
  · cases h
  rename_i q hq
  rw [T.pop?_some hc hq]
  have htoken : (T.parsed T.lexeme q).value.token = q.value.token := T.token q.value
  have hstart : (T.parsed T.lexeme q).value.start = T.place q.value.start := T.start q.value
  dsimp only at h ⊢
  rw [htoken, hstart]
  split at h
  · cases h
    rfl
  · cases h
    rfl
  · cases h
  · cases h
  · cases h
  · rename_i hbracket
    obtain ⟨e, he, h⟩ := ok_of_bind h
    obtain ⟨closing, hclosing, h⟩ := ok_of_bind h
    have := q.opened.later
    cases h
    have hopening := Cursor.passes_pop? hq (by simp [hbracket])
    rw [hbracket] at hopening
    have h₁ := hopening.opened
    have h₂ := h₁.trans (turns_expression _ e he)
    have hclosed := Cursor.turns_expectClosing _ ')' h₂.depth_pos closing hclosing
    have he' : expression (T.parsed T.lexeme q).opened.next = _ :=
      expression_cursor _ (T.fits hc h₁ (by decide)) he hclosed.sealed
    have hclosing' : (T.parsed (Expr.relocated T.place) e).next.expectClosing ')' = _ :=
      T.expectClosing_cursor (T.fits hc h₂ (by decide)) hclosing
    rw [bind_of_ok he', bind_of_ok hclosing']
    rfl
  · cases h
    rfl
  · cases h
    rfl
  · obtain ⟨name, hname, h⟩ := ok_of_bind h
    have := name.later
    have h₁ := c.turns_dottedName name hname
    obtain ⟨hname', htouches⟩ := T.dottedName_cursor hc hname
    rw [bind_of_ok hname']
    split at h
    · rename_i hcall
      obtain ⟨bracket, hbracket, h⟩ := ok_of_bind h
      obtain ⟨args, hargs, h⟩ := ok_of_bind h
      have := bracket.opened.later
      cases h
      have h₂ := h₁.trans (Cursor.turns_expect _ '(' bracket hbracket).opened
      have hbracket' : (T.cursor name.next).expect '(' = _ :=
        T.expect_cursor (T.fits hc h₁ (by decide)) hbracket
      have hargs' : arguments (T.cursor bracket.opened.next) = _ :=
        arguments_cursor _ (T.fits hc h₂ (by decide)) h₂.depth_pos hargs hp
      refine (if_pos ((htouches '(').trans hcall)).trans ?_
      refine (bind_of_ok hbracket' _).trans ?_
      exact bind_of_ok hargs' _
    rename_i hcall
    refine (if_neg fun hcall' => hcall ((htouches '(').symm.trans hcall')).trans ?_
    split at h
    · rename_i hna
      cases h
      exact if_pos hna
    · rename_i hna
      cases h
      exact if_neg hna
  · cases h
termination_by 16 * c.rest.length + 1
decreasing_by all_goals (simp only [Parsed.rest_opened] at *; omega)

theorem arguments_cursor (c : Cursor) (hc : T.Fits c) (hdepth : 0 < c.depth)
    {p : Parsed c (List (Arg Expr))} (h : arguments c = .ok p) (hp : p.next.Sealed) :
    arguments (T.cursor c) = .ok (T.parsed (Arg.allRelocated T.place) p) := by
  rw [arguments] at h
  split at h
  · rename_i q hq
    cases h
    exact arguments_nil ((keeps_symbol? ')').found T hc hq)
  · rename_i hnone
    obtain ⟨arg, harg, h⟩ := ok_of_bind h
    have := arg.later
    have h₁ := turns_argument c arg harg
    have fits₁ := T.fits hc h₁ (by decide)
    have hnone' := (keeps_symbol? ')').missed T hc h₁.sealed hnone
    dsimp only at h
    split at h
    · rename_i comma hcomma
      obtain ⟨more, hmore, h⟩ := ok_of_bind h
      have := comma.later
      cases h
      have hpasses := Cursor.passes_symbol? hcomma
      have h₂ := h₁.trans hpasses
      exact arguments_cons hnone' (argument_cursor c hc harg hpasses.sealed)
        ((keeps_symbol? ',').found T fits₁ hcomma)
        (arguments_cursor _ (T.fits hc h₂ (by decide)) (h₂.depth_eq ▸ hdepth) hmore hp)
    · rename_i hcomma
      obtain ⟨closing, hclosing, h⟩ := ok_of_bind h
      cases h
      have hclosed := Cursor.turns_expectClosing _ ')' (h₁.depth_eq ▸ hdepth) closing hclosing
      exact arguments_last hnone' (argument_cursor c hc harg hclosed.sealed)
        ((keeps_symbol? ',').missed T fits₁ hclosed.sealed hcomma)
        (T.expectClosing_cursor fits₁ hclosing)
termination_by 16 * c.rest.length + 16

theorem argument_cursor (c : Cursor) (hc : T.Fits c) {p : Parsed c (Arg Expr)}
    (h : argument c = .ok p) (hp : p.next.Sealed) :
    argument (T.cursor c) = .ok (T.parsed (Arg.relocated T.place) p) := by
  have h₁ := turns_argument c p h
  obtain ⟨l, hl⟩ := h₁.pop?
  have hposition := T.position_cursor hc hl
  rw [argument] at h
  split at h
  · rename_i name hname
    have := name.later
    obtain ⟨value, hvalue, h⟩ := ok_of_bind h
    cases h
    have fits := T.fits hc (Cursor.passes_argName? hname) (by decide)
    rw [argument_named (T.argName?_cursor hc hname) (expression_cursor _ fits hvalue hp), hposition]
    rfl
  · rename_i hnone
    obtain ⟨value, hvalue, h⟩ := ok_of_bind h
    cases h
    rw [argument_positional (T.argName?_cursor_none hc h₁.sealed
      (fun n hn => h₁.sealed_name hp hn) hnone) (expression_cursor c hc hvalue hp), hposition]
    rfl
termination_by 16 * c.rest.length + 15

end

end

end Relocation

end BarScript
