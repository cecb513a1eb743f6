import BarScript.Proofs.LineEnd
import BarScript.Proofs.MovingStatements
import BarScript.Proofs.Placement

/-!
# Scripts concatenate

What is read from a text is read from the text in a longer one, in front of what is read behind it
(`Placement.statements_cursor`). Two scripts with a line end between them are therefore one script
with the statements of both (`parse_append`).
-/

namespace BarScript

open Text (byteSize)

/-! ## Moved trees -/

mutual

/-- The expression with all its positions moved by `k` bytes. -/
def Expr.moved (k : Nat) : Expr → Expr
  | .number l => .number l
  | .flag b => .flag b
  | .text s => .text s
  | .na => .na
  | .name n p => .name n (p + k)
  | .history target offset p => .history (target.moved k) (offset.moved k) (p + k)
  | .unary op e => .unary op (e.moved k)
  | .binary op l r => .binary op (l.moved k) (r.moved k)
  | .ternary c y n => .ternary (c.moved k) (y.moved k) (n.moved k)
  | .call ⟨f, args, p⟩ => .call ⟨f, Arg.allMoved k args, p + k⟩

def Arg.allMoved (k : Nat) : List (Arg Expr) → List (Arg Expr)
  | [] => []
  | ⟨name, value, p⟩ :: as => ⟨name, value.moved k, p + k⟩ :: Arg.allMoved k as

end

def CallOf.moved (k : Nat) (c : Call) : Call := ⟨c.name, Arg.allMoved k c.args, c.position + k⟩

def Returned.moved (k : Nat) : Returned → Returned
  | single e => .single (e.moved k)
  | named fields => .named (fields.map fun x => (x.1, x.2.moved k))

/-- The statement with all its positions moved by `k` bytes. -/
def Statement.moved (k : Nat) : Statement → Statement
  | declare kind name value p => .declare kind name (value.moved k) (p + k)
  | reassign name value p => .reassign name (value.moved k) (p + k)
  | unpack names call p => .unpack names (call.moved k) (p + k)
  | expr e => .expr (e.moved k)
  | result value p => .result (value.moved k) (p + k)

mutual

/-- Moved by nothing, an expression is what it was. -/
theorem Expr.moved_zero : (e : Expr) → e.moved 0 = e
  | .number _ => rfl
  | .flag _ => rfl
  | .text _ => rfl
  | .na => rfl
  | .name _ _ => rfl
  | .history t o _ => by rw [Expr.moved, t.moved_zero, o.moved_zero]; rfl
  | .unary _ e => by rw [Expr.moved, e.moved_zero]
  | .binary _ l r => by rw [Expr.moved, l.moved_zero, r.moved_zero]
  | .ternary c y n => by rw [Expr.moved, c.moved_zero, y.moved_zero, n.moved_zero]
  | .call ⟨_, args, _⟩ => by rw [Expr.moved, Arg.allMoved_zero args]; rfl

theorem Arg.allMoved_zero : (as : List (Arg Expr)) → Arg.allMoved 0 as = as
  | [] => rfl
  | ⟨_, value, _⟩ :: as => by rw [Arg.allMoved, value.moved_zero, Arg.allMoved_zero as]; rfl

end

theorem Statement.moved_zero (s : Statement) : s.moved 0 = s := by
  cases s with
  | declare kind name value p => rw [moved, value.moved_zero]; rfl
  | reassign name value p => rw [moved, value.moved_zero]; rfl
  | unpack names call p => rw [moved, CallOf.moved, Arg.allMoved_zero]; rfl
  | expr e => rw [moved, e.moved_zero]
  | result value p =>
    cases value with
    | single e => rw [moved, Returned.moved, e.moved_zero]; rfl
    | named fields => simp [moved, Returned.moved, Expr.moved_zero]

mutual

/-- Positions that are all moved by as many bytes. -/
theorem Expr.relocated_add (k : Nat) : (e : Expr) → e.relocated (· + k) = e.moved k
  | .number _ => rfl
  | .flag _ => rfl
  | .text _ => rfl
  | .na => rfl
  | .name _ _ => rfl
  | .history t o _ => by rw [Expr.relocated, Expr.moved, t.relocated_add, o.relocated_add]
  | .unary _ e => by rw [Expr.relocated, Expr.moved, e.relocated_add]
  | .binary _ l r => by rw [Expr.relocated, Expr.moved, l.relocated_add, r.relocated_add]
  | .ternary c y n => by
    rw [Expr.relocated, Expr.moved, c.relocated_add, y.relocated_add, n.relocated_add]
  | .call ⟨_, args, _⟩ => by rw [Expr.relocated, Expr.moved, Arg.allRelocated_add k args]

theorem Arg.allRelocated_add (k : Nat) :
    (as : List (Arg Expr)) → Arg.allRelocated (· + k) as = Arg.allMoved k as
  | [] => rfl
  | ⟨_, value, _⟩ :: as => by
    rw [Arg.allRelocated, Arg.allMoved, value.relocated_add, Arg.allRelocated_add k as]

end

theorem Statement.relocated_add (k : Nat) (s : Statement) : s.relocated (· + k) = s.moved k := by
  cases s with
  | declare kind name value p => rw [relocated, moved, value.relocated_add]
  | reassign name value p => rw [relocated, moved, value.relocated_add]
  | unpack names call p =>
    rw [relocated, moved, CallOf.relocated, CallOf.moved, Arg.allRelocated_add]
  | expr e => rw [relocated, moved, e.relocated_add]
  | result value p =>
    cases value with
    | single e => rw [relocated, moved, Returned.relocated, Returned.moved, e.relocated_add]
    | named fields =>
      simp [relocated, moved, Returned.relocated, Returned.moved, Expr.relocated_add]

/-! ## Scripts -/

namespace Placement

variable (P : Placement) {c : Cursor}

/-- The place behind the text. -/
def beyond : Cursor := ⟨P.behind, 0, P.finish⟩

/-- **The statements of a text** are those of the longer text, in front of the ones behind it. -/
theorem statements_cursor {ps : List Passage} (h : c.Reads ps) (hdepth : c.depth = 0) :
    (P.cursor c).statements =
      P.beyond.statements.map (ps.map (·.statement.moved P.offset) ++ ·) := by
  have hstatements := P.relocation.statements_cursor h trivial hdepth
  have hmoved : ps.map (·.statement.relocated (· + P.offset)) =
      ps.map (·.statement.moved P.offset) :=
    List.map_congr_left fun p _ => p.statement.relocated_add P.offset
  exact hstatements.trans (congrArg (fun ss => P.beyond.statements.map (ss ++ ·)) hmoved)

end Placement

/-- **Scripts concatenate.** With a line end between them two scripts are one script; its statements
are those of the first and then those of the second, moved behind the first and the line end. -/
theorem parse_append {first second : String} {ss ss' : List Statement} (h : parse first = .ok ss)
    (h' : parse second = .ok ss') :
    parse (first ++ "\n" ++ second) =
      .ok (ss ++ ss'.map (Statement.moved (byteSize first.toList + 1))) := by
  obtain ⟨ps, hreads, -, rfl⟩ := reads_of_parse h
  obtain ⟨ps', hreads', -, rfl⟩ := reads_of_parse h'
  have hclosed := hreads.closed (Cursor.stands_ofText first)
  let n := byteSize first.toList
  let finish := byteSize (first ++ "\n" ++ second).toList
  let line : Lexeme := ⟨.newline, '\n', n, n + 1⟩
  -- behind the first script stand the line end and the second one
  let P : Placement := ⟨0, line :: Token.lexemes (n + 1) second.toList, finish, by simp [line]⟩
  have hfirst : Cursor.ofText (first ++ "\n" ++ second) = P.cursor (Cursor.ofText first) := by
    have hlist : (first ++ "\n" ++ second).toList = first.toList ++ '\n' :: second.toList := by
      simp
    have hlexemes := Token.lexemes_append_line hclosed second.toList
    rw [Nat.zero_add, ← List.map_id (Token.lexemes 0 first.toList)] at hlexemes
    rw [Cursor.ofText, hlist, hlexemes, ← hlist]
    rfl
  -- behind the line end stands the second script, moved
  let Q : Placement := ⟨n + 1, [], finish, by simp⟩
  have hsecond : P.beyond.skipSeparators = (Q.cursor (Cursor.ofText second)).skipSeparators := by
    have hmoved := Token.lexemes_moved (n + 1) 0 second.toList
    rw [Nat.zero_add, ← List.append_nil (List.map _ _)] at hmoved
    exact congrArg (fun ls : List Lexeme => (Cursor.mk (line :: ls) 0 finish).skipSeparators) hmoved
  have hnil : Q.beyond.statements = .ok [] := by
    rw [Cursor.statements]
    rfl
  calc parse (first ++ "\n" ++ second)
      = P.beyond.statements.map (ps.map (·.statement.moved 0) ++ ·) := by
        rw [parse, hfirst, P.statements_cursor hreads rfl]
    _ = (Q.cursor (Cursor.ofText second)).statements.map (ps.map (·.statement) ++ ·) := by
        rw [Cursor.statements_of_skipSeparators hsecond]
        simp only [Statement.moved_zero]
    _ = .ok (ps.map (·.statement) ++ (ps'.map (·.statement)).map (Statement.moved (n + 1))) := by
        rw [Q.statements_cursor hreads' rfl, hnil, List.map_map]
        exact congrArg (fun ss => Except.ok (ps.map (·.statement) ++ ss)) (List.append_nil _)

/-- The comment in the first script has a character of two bytes. -/
theorem parse_append_two :
    parse "a = 1 // β" = .ok [.declare .binding "a" (.number (.ofNat 1)) 0] ∧
      parse "b = a" = .ok [.declare .binding "b" (.name "a" 4) 0] ∧
      parse ("a = 1 // β" ++ "\n" ++ "b = a") = .ok [.declare .binding "a" (.number (.ofNat 1)) 0,
        .declare .binding "b" (.name "a" 16) 12] := by
  have h : parse "a = 1 // β" = .ok [.declare .binding "a" (.number (.ofNat 1)) 0] := by
    with_unfolding_all rfl
  have h' : parse "b = a" = .ok [.declare .binding "b" (.name "a" 4) 0] := by with_unfolding_all rfl
  exact ⟨h, h', parse_append h h'⟩

end BarScript
