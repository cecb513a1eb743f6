import BarScript.Script.Cursor

/-!
# Expressions

Expressions by precedence, from the loosest to the tightest: the ternary, which associates to the
right; `or`; `and`; `not`; comparisons; sums; products; signs; and the brackets that read history. A
sign in front of a number belongs to the number. A call needs its parenthesis to touch the name.
-/

namespace BarScript

/-- The binary operators of one precedence, which associate to the left. -/
inductive Tier where
  | or | and | comparison | sum | product
  deriving DecidableEq, Repr

namespace Tier

/-- An operator of the tier. -/
def op? (t : Tier) (c : Cursor) : Option (Parsed c BinaryOp) :=
  let as (op : BinaryOp) (p : Option (Parsed c Unit)) : Option (Parsed c BinaryOp) :=
    p.map fun p => p.map fun _ => op
  match t with
  | or => as .or (c.keyword? "or")
  | and => as .and (c.keyword? "and")
  | comparison =>
    as .eq (c.symbolEquals? '=') <|> as .ne (c.symbolEquals? '!') <|>
      as .le (c.symbolEquals? '<') <|> as .ge (c.symbolEquals? '>') <|>
      as .lt (c.symbol? '<') <|> as .gt (c.symbol? '>')
  | sum => as .add (c.plainSymbol? '+') <|> as .sub (c.plainSymbol? '-')
  | product =>
    as .mul (c.plainSymbol? '*') <|> as .div (c.plainSymbol? '/') <|> as .mod (c.plainSymbol? '%')

/-- The place of a tier among all levels of the grammar; tighter levels have smaller numbers. -/
def rank : Tier → Nat
  | or => 13
  | and => 11
  | comparison => 8
  | sum => 6
  | product => 4

end Tier

/-- The members `.m` that touch a name which stops at the byte `stop`: the whole name, where it
stops, and the lexemes behind it. -/
def members (name : String) (stop : Nat) : List Lexeme → String × Nat × List Lexeme
  | ⟨.symbol '.', f₁, start₁, stop₁⟩ :: ⟨.word w, f₂, start₂, stop₂⟩ :: rest =>
    if start₁ = stop ∧ start₂ = stop₁ then members (name ++ "." ++ w) stop₂ rest
    else (name, stop, ⟨.symbol '.', f₁, start₁, stop₁⟩ :: ⟨.word w, f₂, start₂, stop₂⟩ :: rest)
  | rest => (name, stop, rest)

theorem length_members_le (name : String) (stop : Nat) (ls : List Lexeme) :
    (members name stop ls).2.2.length ≤ ls.length := by
  fun_induction members name stop ls with
  | case1 _ _ _ _ _ _ _ _ _ _ _ ih => exact Nat.le_succ_of_le (Nat.le_succ_of_le ih)
  | case2 => exact Nat.le_refl _
  | case3 => exact Nat.le_refl _

/-- A dotted name, and where it stops. -/
def Cursor.dottedName (c : Cursor) : Except SyntaxError (Parsed c (String × Nat)) :=
  match c.pop? with
  | some p =>
    match p.value.token with
    | .word w =>
      if w ∈ keywords then .error ⟨.reservedWord w, p.value.start⟩
      else
        let m := members w p.value.stop p.next.rest
        .ok ⟨(m.1, m.2.1), { p.next with rest := m.2.2 },
          Nat.lt_of_le_of_lt (length_members_le ..) p.later⟩
    | _ => c.fault .expectedName
  | none => c.fault .expectedName

/-- A name and the equals sign behind it, in front of the value of an argument. -/
def Cursor.argName? (c : Cursor) : Option (Parsed c String) :=
  match c.name with
  | .ok p => (p.next.plainSymbol? '=').map fun q => p.andThen (q.map fun _ => p.value)
  | .error _ => none

/-- A sign in front of an expression. -/
def Expr.negated : Expr → Expr
  | .number l => .number l.neg
  | e => .unary .neg e

mutual

/-- Any expression. -/
def expression (c : Cursor) : Except SyntaxError (Parsed c Expr) := do
  let cond ← chain .or c
  have := cond.later
  match cond.next.symbol? '?' with
  | none => return cond
  | some mark =>
    have := mark.opened.later
    let yes ← expression mark.opened.next
    have := yes.later
    let colon ← yes.next.expectClosing ':'
    have := colon.later
    let no ← expression colon.next
    return cond.andThen (mark.opened.andThen (yes.andThen (colon.andThen (no.map fun n =>
      .ternary cond.value yes.value n))))
termination_by 16 * c.rest.length + 14
decreasing_by all_goals ((try simp only [Tier.rank]) <;> omega)

/-- Operands of a tier with its operators between them. -/
def chain (t : Tier) (c : Cursor) : Except SyntaxError (Parsed c Expr) := do
  let first ← operand t c
  have := first.later
  chainFrom t c first
termination_by 16 * c.rest.length + t.rank
decreasing_by all_goals (cases t <;> (try simp only [Tier.rank]) <;> omega)

/-- More operators and operands behind an expression. -/
def chainFrom (t : Tier) (c : Cursor) (left : Parsed c Expr) : Except SyntaxError (Parsed c Expr) :=
  match t.op? left.next with
  | none => .ok left
  | some op => do
    have := op.later
    let right ← operand t op.next
    have := right.later
    chainFrom t c (left.andThen (op.andThen (right.map fun r =>
      .binary op.value left.value r)))
termination_by 16 * left.next.rest.length + 15
decreasing_by all_goals (cases t <;>
  (try simp only [Tier.rank, Parsed.next_andThen, Parsed.next_map]) <;> omega)

/-- What stands between the operators of a tier. -/
def operand (t : Tier) (c : Cursor) : Except SyntaxError (Parsed c Expr) :=
  match t with
  | .or => chain .and c
  | .and => negation c
  | .comparison => chain .sum c
  | .sum => chain .product c
  | .product => signed c
termination_by 16 * c.rest.length + t.rank - 1
decreasing_by all_goals ((try simp only [Tier.rank]) <;> omega)

/-- A comparison, perhaps negated. -/
def negation (c : Cursor) : Except SyntaxError (Parsed c Expr) :=
  match c.keyword? "not" with
  | some p => do
    have := p.later
    let e ← negation p.next
    return p.andThen (e.map (.unary .not))
  | none => chain .comparison c
termination_by 16 * c.rest.length + 9
decreasing_by all_goals ((try simp only [Tier.rank]) <;> omega)

/-- An expression without binary operators, perhaps with signs. -/
def signed (c : Cursor) : Except SyntaxError (Parsed c Expr) :=
  match c.symbol? '-' with
  | some p => do
    have := p.later
    let e ← signed p.next
    return p.andThen (e.map Expr.negated)
  | none =>
    match c.symbol? '+' with
    | some p => do
      have := p.later
      let e ← signed p.next
      return p.andThen e
    | none => do
      let e ← primary c
      have := e.later
      historyFrom c e
termination_by 16 * c.rest.length + 2

/-- Brackets behind an expression. -/
def historyFrom (c : Cursor) (target : Parsed c Expr) : Except SyntaxError (Parsed c Expr) :=
  match target.next.symbol? '[' with
  | none => .ok target
  | some bracket => do
    let position := target.next.position
    have := bracket.opened.later
    let offset ← expression bracket.opened.next
    have := offset.later
    let closing ← offset.next.expectClosing ']'
    have := closing.later
    historyFrom c (target.andThen (bracket.opened.andThen (offset.andThen (closing.map fun _ =>
      .history target.value offset.value position))))
termination_by 16 * target.next.rest.length + 15
decreasing_by all_goals ((try simp only [Parsed.next_andThen, Parsed.next_map]) <;> omega)

/-- A literal, a name, a call, or an expression in parentheses. -/
def primary (c : Cursor) : Except SyntaxError (Parsed c Expr) :=
  match c.pop? with
  | none => c.fault .expectedExpression
  | some p =>
    let position := p.value.start
    match p.value.token with
    | .number l => .ok (p.map fun _ => .number l)
    | .text s => .ok (p.map fun _ => .text s)
    | .symbol '.' => .error ⟨.expectedNumber, position⟩
    | .symbol '"' => .error ⟨.unterminatedText, position⟩
    | .symbol '\'' => .error ⟨.unterminatedText, position⟩
    | .symbol '(' => do
      have := p.opened.later
      let e ← expression p.opened.next
      let closing ← e.next.expectClosing ')'
      return p.opened.andThen (e.andThen (closing.map fun _ => e.value))
    | .word "true" => .ok (p.map fun _ => .flag true)
    | .word "false" => .ok (p.map fun _ => .flag false)
    | .word _ => do
      let name ← c.dottedName
      have := name.later
      if name.next.touches name.value.2 '(' then
        let bracket ← name.next.expect '('
        have := bracket.opened.later
        let args ← arguments bracket.opened.next
        return name.andThen (bracket.opened.andThen (args.map fun args =>
          .call ⟨name.value.1, args, position⟩))
      else if name.value.1 = "na" then return name.map fun _ => .na
      else return name.map fun n => .name n.1 position
    | _ => c.fault .expectedExpression
termination_by 16 * c.rest.length + 1
decreasing_by all_goals (simp only [Parsed.rest_opened] at * <;> omega)

/-- The arguments of a call up to and with the closing parenthesis. -/
def arguments (c : Cursor) : Except SyntaxError (Parsed c (List (Arg Expr))) :=
  match c.symbol? ')' with
  | some p => .ok (p.closed.map fun _ => [])
  | none => do
    let arg ← argument c
    have := arg.later
    match arg.next.symbol? ',' with
    | some comma =>
      have := comma.later
      let more ← arguments comma.next
      return arg.andThen (comma.andThen (more.map (arg.value :: ·)))
    | none =>
      let closing ← arg.next.expectClosing ')'
      return arg.andThen (closing.map fun _ => [arg.value])
termination_by 16 * c.rest.length + 16

/-- An argument, perhaps by name. -/
def argument (c : Cursor) : Except SyntaxError (Parsed c (Arg Expr)) :=
  match c.argName? with
  | some name => do
    have := name.later
    let value ← expression name.next
    return name.andThen (value.map fun v => ⟨some name.value, v, c.position⟩)
  | none => do
    let value ← expression c
    return value.map fun v => ⟨none, v, c.position⟩
termination_by 16 * c.rest.length + 15

end

end BarScript
