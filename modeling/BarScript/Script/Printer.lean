import BarScript.Script.Tree

/-!
# Expressions as text

`Expr.print` writes an expression as a script has it: single blanks around the operators, and
parentheses only where the operators need them. Numbers are positional as far as their digits go,
and have an exponent beyond that.
-/

namespace BarScript

/-- How tightly the parts of an expression hold together, from the loosest level on. -/
inductive Tightness where
  | ternary | or | and | not | comparison | sum | product | sign | bracket
  deriving DecidableEq, Repr

namespace Tightness

/-- The place of a level; tighter levels have greater numbers. -/
def rank : Tightness → Nat
  | ternary => 0
  | or => 1
  | and => 2
  | not => 3
  | comparison => 4
  | sum => 5
  | product => 6
  | sign => 7
  | bracket => 8

end Tightness

namespace BinaryOp

/-- The level of the expressions that an operator makes, which is that of its left operand. -/
def level : BinaryOp → Tightness
  | .add | .sub => .sum
  | .mul | .div | .mod => .product
  | .eq | .ne | .lt | .le | .gt | .ge => .comparison
  | .and => .and
  | .or => .or

/-- The level of the right operand, one tighter. -/
def rightLevel : BinaryOp → Tightness
  | .add | .sub => .product
  | .mul | .div | .mod => .sign
  | .eq | .ne | .lt | .le | .gt | .ge => .sum
  | .and => .not
  | .or => .and

end BinaryOp

namespace Literal

/-- A number as a script has it. -/
def print (l : Literal) : List Char :=
  let ds := Nat.toDigits 10 l.mantissa
  let body :=
    if l.exponent = 0 then ds
    else if l.exponent > 0 then ds ++ 'e' :: Nat.toDigits 10 l.exponent.toNat
    else
      let places := (-l.exponent).toNat
      let ds := List.replicate (places + 1 - ds.length) '0' ++ ds
      ds.take (ds.length - places) ++ '.' :: ds.drop (ds.length - places)
  if l.negative then '-' :: body else body

end Literal

/-- A character inside a quoted text. -/
def escapeChar : Char → List Char
  | '\\' => ['\\', '\\']
  | '"' => ['\\', '"']
  | '\n' => ['\\', 'n']
  | '\t' => ['\\', 't']
  | c => [c]

/-- A text in quotes. -/
def quoteText (s : String) : List Char := '"' :: s.toList.flatMap escapeChar ++ ['"']

/-- An expression of a level where one of another level has to stand. -/
def parenthesize (own place : Tightness) (cs : List Char) : List Char :=
  if own.rank < place.rank then '(' :: cs ++ [')'] else cs

namespace Expr

mutual

/-- An expression where one of level `place` has to stand. -/
def printAt (place : Tightness) : Expr → List Char
  | .number l => parenthesize (if l.negative then .sign else .bracket) place l.print
  | .flag b => (if b then "true" else "false").toList
  | .text s => quoteText s
  | .na => "na".toList
  | .name n _ => n.toList
  | .history target offset _ =>
    printAt .bracket target ++ '[' :: printAt .ternary offset ++ [']']
  | .unary .neg e => parenthesize .sign place ('-' :: printAt .sign e)
  | .unary .not e => parenthesize .not place ("not ".toList ++ printAt .not e)
  | .binary op l r =>
    parenthesize op.level place
      (printAt op.level l ++ ' ' :: op.symbol.toList ++ ' ' :: printAt op.rightLevel r)
  | .ternary c y n =>
    parenthesize .ternary place
      (printAt .or c ++ " ? ".toList ++ printAt .ternary y ++ " : ".toList ++ printAt .ternary n)
  | .call c => printCall c

/-- A call. -/
def printCall : CallOf Expr → List Char
  | ⟨f, args, _⟩ => f.toList ++ '(' :: printArgs args ++ [')']

/-- Arguments with commas between them. -/
def printArgs : List (Arg Expr) → List Char
  | [] => []
  | [a] => printArg a
  | a :: as => printArg a ++ ", ".toList ++ printArgs as

/-- An argument. -/
def printArg : Arg Expr → List Char
  | ⟨none, value, _⟩ => printAt .ternary value
  | ⟨some n, value, _⟩ => n.toList ++ " = ".toList ++ printAt .ternary value

end

/-- The text of an expression. -/
def print (e : Expr) : String := String.ofList (printAt .ternary e)

end Expr

end BarScript
