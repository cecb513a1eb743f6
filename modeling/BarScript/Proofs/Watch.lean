import BarScript.Script.Parser

/-!
# The parser under watch

The rules of the grammar once more, as a machine that is watched while it runs. A rule has a budget
of nested calls, every round of a loop has to pass some of the text, and a bracket is only closed
where one is open; a rule that fails to is stopped (`Halt`). Here nothing is known of what the rules
return, so that the watch is all that ends them.
-/

namespace BarScript

/-- What stops a rule under watch. -/
inductive Halt where
  /-- A fault in the text, which the rule itself reports. -/
  | fault (e : SyntaxError)
  /-- No nested call is left. -/
  | spent
  /-- A round has passed nothing. -/
  | idle
  /-- A bracket is closed where none is open. -/
  | unopened
  deriving DecidableEq, Repr

namespace Halt

/-- What a rule reads, without a proof that it has passed anything. -/
def plain {c : Cursor} {β : Type} (m : Except SyntaxError (Parsed c β)) :
    Except Halt (β × Cursor) :=
  match m with
  | .ok p => .ok (p.value, p.next)
  | .error e => .error (.fault e)

end Halt

namespace Watched

open Halt

/-! ## The watch -/

/-- The next round of a loop starts further on. -/
def advanced (c d : Cursor) : Except Halt Unit :=
  if c.position < d.position then .ok () else .error .idle

/-- One bracket less is open. -/
def shallower (c : Cursor) : Except Halt (Unit × Cursor) :=
  if c.depth = 0 then .error .unopened else .ok ((), { c with depth := c.depth - 1 })

/-- A closing bracket, which has to stand here. -/
def expectClosing (c : Cursor) (s : Char) : Except Halt (Unit × Cursor) := do
  let (_, d) ← plain (c.expect s)
  shallower d

/-! ## Separators and lexemes -/

/-- The byte where the lexemes go on, or the end of the text. -/
def front (finish : Nat) (ls : List Lexeme) : Nat := (ls.head?.map (·.start)).getD finish

/-- The lexemes behind those that are passed over. -/
def passing (p : Lexeme → Bool) (finish : Nat) : Nat → List Lexeme → Except Halt (List Lexeme)
  | 0, _ => .error .spent
  | _ + 1, [] => .ok []
  | n + 1, l :: ls =>
    if p l then
      if l.start < front finish ls then passing p finish n ls else .error .idle
    else .ok (l :: ls)

/-- The lexemes of a text that starts at the byte offset `start`. -/
def lexemes : Nat → Nat → List Char → Except Halt (List Lexeme)
  | 0, _, _ => .error .spent
  | _ + 1, _, [] => .ok []
  | n + 1, start, c :: cs => do
    let (token, k) := Token.munch c cs
    let stop := start + Text.byteSize (c :: cs.take k)
    if ¬ start < stop then throw .idle
    let rest ← lexemes n stop (cs.drop k)
    match token with
    | some t => return ⟨t, c, start, stop⟩ :: rest
    | none => return rest

/-! ## Expressions -/

mutual

/-- Any expression. -/
def expression : Nat → Cursor → Except Halt (Expr × Cursor)
  | 0, _ => .error .spent
  | n + 1, c => do
    let (cond, c₁) ← chain n .or c
    match c₁.symbol? '?' with
    | none => return (cond, c₁)
    | some mark =>
      let (yes, c₂) ← expression n mark.opened.next
      let (_, c₃) ← expectClosing c₂ ':'
      let (no, c₄) ← expression n c₃
      return (.ternary cond yes no, c₄)

/-- Operands of a tier with its operators between them. -/
def chain : Nat → Tier → Cursor → Except Halt (Expr × Cursor)
  | 0, _, _ => .error .spent
  | n + 1, t, c => do
    let (first, c₁) ← operand n t c
    chainFrom n t first c₁

/-- More operators and operands behind an expression. -/
def chainFrom : Nat → Tier → Expr → Cursor → Except Halt (Expr × Cursor)
  | 0, _, _, _ => .error .spent
  | n + 1, t, left, c =>
    match t.op? c with
    | none => .ok (left, c)
    | some op => do
      let (right, d) ← operand n t op.next
      advanced c d
      chainFrom n t (.binary op.value left right) d

/-- What stands between the operators of a tier. -/
def operand : Nat → Tier → Cursor → Except Halt (Expr × Cursor)
  | 0, _, _ => .error .spent
  | n + 1, t, c =>
    match t with
    | .or => chain n .and c
    | .and => negation n c
    | .comparison => chain n .sum c
    | .sum => chain n .product c
    | .product => signed n c

/-- A comparison, perhaps negated. -/
def negation : Nat → Cursor → Except Halt (Expr × Cursor)
  | 0, _ => .error .spent
  | n + 1, c =>
    match c.keyword? "not" with
    | some p => do
      let (e, d) ← negation n p.next
      return (.unary .not e, d)
    | none => chain n .comparison c

/-- An expression without binary operators, perhaps with signs. -/
def signed : Nat → Cursor → Except Halt (Expr × Cursor)
  | 0, _ => .error .spent
  | n + 1, c =>
    match c.symbol? '-' with
    | some p => do
      let (e, d) ← signed n p.next
      return (e.negated, d)
    | none =>
      match c.symbol? '+' with
      | some p => signed n p.next
      | none => do
        let (e, d) ← primary n c
        historyFrom n e d

/-- Brackets behind an expression. -/
def historyFrom : Nat → Expr → Cursor → Except Halt (Expr × Cursor)
  | 0, _, _ => .error .spent
  | n + 1, target, c =>
    match c.symbol? '[' with
    | none => .ok (target, c)
    | some bracket => do
      let (offset, c₁) ← expression n bracket.opened.next
      let (_, d) ← expectClosing c₁ ']'
      advanced c d
      historyFrom n (.history target offset c.position) d

/-- A literal, a name, a call, or an expression in parentheses. -/
def primary : Nat → Cursor → Except Halt (Expr × Cursor)
  | 0, _ => .error .spent
  | n + 1, c =>
    match c.pop? with
    | none => plain (c.fault .expectedExpression : Except _ (Parsed c _))
    | some p =>
      let position := p.value.start
      match p.value.token with
      | .number l => .ok (.number l, p.next)
      | .text s => .ok (.text s, p.next)
      | .symbol '.' => .error (.fault ⟨.expectedNumber, position⟩)
      | .symbol '"' => .error (.fault ⟨.unterminatedText, position⟩)
      | .symbol '\'' => .error (.fault ⟨.unterminatedText, position⟩)
      | .symbol '(' => do
        let (e, c₁) ← expression n p.opened.next
        let (_, d) ← expectClosing c₁ ')'
        return (e, d)
      | .word "true" => .ok (.flag true, p.next)
      | .word "false" => .ok (.flag false, p.next)
      | .word _ => do
        let (name, c₁) ← plain c.dottedName
        if c₁.touches name.2 '(' then
          let (_, c₂) ← plain (c₁.expect '(')
          let (args, d) ← arguments n { c₂ with depth := c₂.depth + 1 }
          return (.call ⟨name.1, args, position⟩, d)
        else if name.1 = "na" then return (.na, c₁)
        else return (.name name.1 position, c₁)
      | _ => plain (c.fault .expectedExpression : Except _ (Parsed c _))

/-- The arguments of a call up to and with the closing parenthesis. -/
def arguments : Nat → Cursor → Except Halt (List (Arg Expr) × Cursor)
  | 0, _ => .error .spent
  | n + 1, c =>
    match c.symbol? ')' with
    | some p => do
      let (_, d) ← shallower p.next
      return ([], d)
    | none => do
      let (arg, c₁) ← argument n c
      match c₁.symbol? ',' with
      | some comma =>
        advanced c comma.next
        let (more, d) ← arguments n comma.next
        return (arg :: more, d)
      | none =>
        let (_, d) ← expectClosing c₁ ')'
        return ([arg], d)

/-- An argument, perhaps by name. -/
def argument : Nat → Cursor → Except Halt (Arg Expr × Cursor)
  | 0, _ => .error .spent
  | n + 1, c =>
    match c.argName? with
    | some name => do
      let (value, d) ← expression n name.next
      return (⟨some name.value, value, c.position⟩, d)
    | none => do
      let (value, d) ← expression n c
      return (⟨none, value, c.position⟩, d)

end

/-! ## Statements -/

/-- The value of a record field; a field without one is named like the variable that it holds. -/
def fieldValue (n : Nat) (c : Cursor) (key : String) (d : Cursor) : Except Halt (Expr × Cursor) :=
  match d.plainSymbol? ':' with
  | some colon => expression n colon.next
  | none => .ok (.name key c.position, d)

/-- The fields of a record up to and with the closing brace; `seen` are the keys so far. -/
def fields : Nat → List String → Cursor → Except Halt (List (String × Expr) × Cursor)
  | 0, _, _ => .error .spent
  | n + 1, seen, c =>
    match c.symbol? '\x7d' with
    | some p => do
      let (_, d) ← shallower p.next
      return ([], d)
    | none => do
      let (key, c₁) ← plain c.key
      if key ∈ seen then throw (.fault ⟨.duplicateKey key, c.position⟩)
      let (value, c₂) ← fieldValue n c key c₁
      match c₂.symbol? ',' with
      | some comma =>
        advanced c comma.next
        let (more, d) ← fields n (key :: seen) comma.next
        return ((key, value) :: more, d)
      | none =>
        let (_, d) ← expectClosing c₂ '\x7d'
        return ([(key, value)], d)

/-- What a `return` returns. -/
def returned (n : Nat) (c : Cursor) : Except Halt (Returned × Cursor) :=
  match c.symbol? '\x7b' with
  | some brace => do
    let (fs, d) ← fields n [] brace.opened.next
    return (.named fs, d)
  | none => do
    let (e, d) ← expression n c
    return (.single e, d)

/-- Names with commas between them. -/
def names : Nat → Cursor → Except Halt (List String × Cursor)
  | 0, _ => .error .spent
  | n + 1, c => do
    let (name, c₁) ← plain c.name
    match c₁.symbol? ',' with
    | some comma =>
      advanced c comma.next
      let (more, d) ← names n comma.next
      return (name :: more, d)
    | none => return ([name], c₁)

/-- The call of a tuple assignment. -/
def tupleCall (n : Nat) (c : Cursor) : Except Halt (Call × Cursor) := do
  let (e, d) ← expression n c
  match e with
  | .call call => return (call, d)
  | _ => throw (.fault ⟨.tupleNeedsCall, c.position⟩)

/-- `[a, b] = f(…)` behind the bracket. -/
def tuple (n : Nat) (c : Cursor) (position : Nat) : Except Halt (Statement × Cursor) := do
  let (ns, c₁) ← names n c
  let (_, c₂) ← expectClosing c₁ ']'
  match c₂.plainSymbol? '=' with
  | some equals =>
    let (call, d) ← tupleCall n equals.next
    return (.unpack ns call position, d)
  | none => plain (c₂.fault .expectedEqualsAfterTuple : Except _ (Parsed c₂ _))

/-- A declaration behind its keyword. -/
def declaration (n : Nat) (c : Cursor) (kind : DeclKind) (position : Nat) :
    Except Halt (Statement × Cursor) := do
  let (name, c₁) ← plain c.skipType.name
  match c₁.plainSymbol? '=' with
  | some equals =>
    let (value, d) ← expression n equals.next
    return (.declare kind name value position, d)
  | none => plain (c₁.fault (.expectedEqualsAfter name) : Except _ (Parsed c₁ _))

/-- A name that an assignment sign follows: the assignment, or nothing if there is none. -/
def assignment? (n : Nat) (c : Cursor) (position : Nat) :
    Option (Except Halt (Statement × Cursor)) :=
  match c.skipType.name with
  | .error _ => none
  | .ok name =>
    match name.next.symbolEquals? ':' with
    | some sign => some do
      let (value, d) ← expression n sign.next
      return (.reassign name.value value position, d)
    | none =>
      match name.next.plainSymbol? '=' with
      | some sign => some do
        let (value, d) ← expression n sign.next
        return (.declare .binding name.value value position, d)
      | none => none

/-- One statement. -/
def statement (n : Nat) (c : Cursor) : Except Halt (Statement × Cursor) :=
  let position := c.position
  match c.keyword? "return" with
  | some p => do
    let (value, d) ← returned n p.next
    return (.result value position, d)
  | none =>
  match c.keyword? "var" with
  | some p => declaration n p.next .persistent position
  | none =>
  match c.keyword? "const" with
  | some p => declaration n p.next .constant position
  | none =>
  match c.symbol? '[' with
  | some p => tuple n p.opened.next position
  | none =>
  match assignment? n c position with
  | some s => s
  | none => do
    let (e, d) ← expression n c
    return (.expr e, d)

/-- A line end or a semicolon. -/
def separates (l : Lexeme) : Bool := l.token == .newline || l.token == .symbol ';'

/-- All statements from here on. -/
def statements : Nat → Cursor → Except Halt (List Statement)
  | 0, _ => .error .spent
  | n + 1, c => do
    let rest ← passing separates c.finish n c.rest
    let start := { c with rest }
    if rest.isEmpty then return []
    let (s, d) ← statement n start
    advanced c d
    (Cursor.endOfStatement d).mapError .fault
    let more ← statements n d
    return s :: more

/-- The statements of a source text. -/
def parse (source : String) : Except Halt (List Statement) := do
  let cs := source.toList
  let rest ← lexemes (cs.length + 1) 0 cs
  statements (16 * cs.length + 20) ⟨rest, 0, Text.byteSize cs⟩

end Watched

end BarScript
