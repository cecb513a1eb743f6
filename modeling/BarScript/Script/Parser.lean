import BarScript.Script.Grammar

/-!
# Scripts

Statements stand on lines of their own or between semicolons. `Script.parse` reads a whole text; it
gives the statements in their order, or the first fault.
-/

namespace BarScript

/-- The type words that may stand in front of a declared name and mean nothing. -/
def typeWords : List String := ["int", "float", "bool", "string", "color"]

namespace Cursor

/-- The place behind a type word, if another word follows it. -/
def skipType (c : Cursor) : Cursor :=
  match c.pop? with
  | some p =>
    match p.value.token, p.next.pop? with
    | .word w, some q =>
      match q.value.token with
      | .word _ => if w ∈ typeWords then p.next else c
      | _ => c
    | _, _ => c
  | none => c

theorem length_skipType_le (c : Cursor) : c.skipType.rest.length ≤ c.rest.length := by
  unfold skipType
  split
  · rename_i p _
    have := p.later
    split
    · split
      · split <;> omega
      · exact Nat.le_refl _
    · exact Nat.le_refl _
  · exact Nat.le_refl _

/-- What is read behind a type word, as read from in front of it. -/
def typed {β : Type} (c : Cursor) (p : Parsed c.skipType β) : Parsed c β :=
  ⟨p.value, p.next, Nat.lt_of_lt_of_le p.later c.length_skipType_le⟩

/-- The key of a record field: a name or a quoted text. -/
def key (c : Cursor) : Except SyntaxError (Parsed c String) :=
  match c.pop? with
  | some p =>
    match p.value.token with
    | .text s => .ok (p.map fun _ => s)
    | .symbol '"' => .error ⟨.unterminatedText, p.value.start⟩
    | .symbol '\'' => .error ⟨.unterminatedText, p.value.start⟩
    | _ => c.name
  | none => c.name

/-- The value of a record field; a field without one is named like the variable that it holds. -/
def fieldValue (c : Cursor) (key : Parsed c String) : Except SyntaxError (Parsed c Expr) :=
  match key.next.plainSymbol? ':' with
  | some colon => do
    let value ← expression colon.next
    return key.andThen (colon.andThen value)
  | none => return key.map fun k => .name k c.position

/-- The fields of a record up to and with the closing brace; `seen` are the keys so far. -/
def fields (seen : List String) (c : Cursor) :
    Except SyntaxError (Parsed c (List (String × Expr))) :=
  match c.symbol? '\x7d' with
  | some p => .ok (p.closed.map fun _ => [])
  | none => do
    let key ← c.key
    if key.value ∈ seen then throw ⟨.duplicateKey key.value, c.position⟩
    let value ← c.fieldValue key
    have := value.later
    match value.next.symbol? ',' with
    | some comma =>
      have := comma.later
      let more ← fields (key.value :: seen) comma.next
      return value.andThen (comma.andThen (more.map ((key.value, value.value) :: ·)))
    | none =>
      let closing ← value.next.expectClosing '\x7d'
      return value.andThen (closing.map fun _ => [(key.value, value.value)])
termination_by c.rest.length

/-- What a `return` returns. -/
def returned (c : Cursor) : Except SyntaxError (Parsed c Returned) :=
  match c.symbol? '\x7b' with
  | some brace => do
    let fields ← fields [] brace.opened.next
    return brace.opened.andThen (fields.map .named)
  | none => do
    let e ← expression c
    return e.map .single

/-- Names with commas between them. -/
def names (c : Cursor) : Except SyntaxError (Parsed c (List String)) := do
  let name ← c.name
  have := name.later
  match name.next.symbol? ',' with
  | some comma =>
    have := comma.later
    let more ← names comma.next
    return name.andThen (comma.andThen (more.map (name.value :: ·)))
  | none => return name.map fun n => [n]
termination_by c.rest.length

/-- The call of a tuple assignment. -/
def tupleCall (c : Cursor) : Except SyntaxError (Parsed c Call) := do
  let e ← expression c
  match e.value with
  | .call call => return e.map fun _ => call
  | _ => throw ⟨.tupleNeedsCall, c.position⟩

/-- `[a, b] = f(…)` behind the bracket. -/
def tuple (c : Cursor) (position : Nat) : Except SyntaxError (Parsed c Statement) := do
  let names ← c.names
  let closing ← names.next.expectClosing ']'
  match closing.next.plainSymbol? '=' with
  | some equals =>
    let call ← tupleCall equals.next
    return names.andThen (closing.andThen (equals.andThen (call.map fun call =>
      .unpack names.value call position)))
  | none => closing.next.fault .expectedEqualsAfterTuple

/-- A declaration behind its keyword. -/
def declaration (c : Cursor) (kind : DeclKind) (position : Nat) :
    Except SyntaxError (Parsed c Statement) := do
  let name ← c.skipType.name
  match name.next.plainSymbol? '=' with
  | some equals =>
    let value ← expression equals.next
    return c.typed (name.andThen (equals.andThen (value.map fun v =>
      .declare kind name.value v position)))
  | none => name.next.fault (.expectedEqualsAfter name.value)

/-- A name that an assignment sign follows: the assignment, or nothing if there is none. -/
def assignment? (c : Cursor) (position : Nat) :
    Option (Except SyntaxError (Parsed c Statement)) :=
  match c.skipType.name with
  | .error _ => none
  | .ok name =>
    match name.next.symbolEquals? ':' with
    | some sign => some do
      let value ← expression sign.next
      return c.typed (name.andThen (sign.andThen (value.map fun v =>
        .reassign name.value v position)))
    | none =>
      match name.next.plainSymbol? '=' with
      | some sign => some do
        let value ← expression sign.next
        return c.typed (name.andThen (sign.andThen (value.map fun v =>
          .declare .binding name.value v position)))
      | none => none

/-- One statement. -/
def statement (c : Cursor) : Except SyntaxError (Parsed c Statement) :=
  let position := c.position
  match c.keyword? "return" with
  | some p => do
    let value ← returned p.next
    return p.andThen (value.map fun v => .result v position)
  | none =>
  match c.keyword? "var" with
  | some p => do
    let s ← declaration p.next .persistent position
    return p.andThen s
  | none =>
  match c.keyword? "const" with
  | some p => do
    let s ← declaration p.next .constant position
    return p.andThen s
  | none =>
  match c.symbol? '[' with
  | some p => do
    let s ← tuple p.opened.next position
    return p.opened.andThen s
  | none =>
  match c.assignment? position with
  | some s => s
  | none => do
    let e ← expression c
    return e.map .expr

/-- The place behind line ends and semicolons. -/
def skipSeparators (c : Cursor) : Cursor :=
  { c with rest := c.rest.dropWhile fun l => l.token == .newline || l.token == .symbol ';' }

/-- A statement has to end here. -/
def endOfStatement (c : Cursor) : Except SyntaxError Unit :=
  match c.skip.rest.head? with
  | none => .ok ()
  | some l =>
    if l.token = .newline ∨ l.token = .symbol ';' then .ok () else c.fault .afterStatement

/-- All statements from here on. -/
def statements (c : Cursor) : Except SyntaxError (List Statement) :=
  let start := c.skipSeparators
  have : start.rest.length ≤ c.rest.length := length_dropWhile_le ..
  if start.rest.isEmpty then .ok []
  else do
    let s ← statement start
    have := s.later
    endOfStatement s.next
    let more ← statements s.next
    return s.value :: more
termination_by c.rest.length

end Cursor

/-- The start of a text. -/
def Cursor.ofText (source : String) : Cursor :=
  let cs := source.toList
  ⟨Token.lexemes 0 cs, 0, Text.byteSize cs⟩

/-- The statements of a source text. -/
def parse (source : String) : Except SyntaxError (List Statement) :=
  (Cursor.ofText source).statements

end BarScript
