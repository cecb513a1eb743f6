import BarScript.Decimal.Literal

/-!
# Scripts as trees

A script is a list of statements. The nodes that can fail to resolve carry their position, a byte
offset into the source. Numbers are kept as they are written and get a value when they are used.
-/

namespace BarScript

inductive UnaryOp where
  | neg | not
  deriving DecidableEq, Repr

inductive BinaryOp where
  | add | sub | mul | div | mod
  | eq | ne | lt | le | gt | ge
  | and | or
  deriving DecidableEq, Repr

/-- How an operator is written. -/
def BinaryOp.symbol : BinaryOp → String
  | add => "+" | sub => "-" | mul => "*" | div => "/" | mod => "%"
  | eq => "==" | ne => "!=" | lt => "<" | le => "<=" | gt => ">" | ge => ">="
  | and => "and" | or => "or"

/-- An argument of a call, positional or by name. -/
structure Arg (ε : Type) where
  name : Option String
  value : ε
  position : Nat
  deriving Repr

/-- A call with arguments `ε`. -/
structure CallOf (ε : Type) where
  name : String
  args : List (Arg ε)
  position : Nat
  deriving Repr

inductive Expr where
  | number (l : Literal)
  | flag (b : Bool)
  | text (s : String)
  | na
  /-- A dotted name: a price, a variable, or a constant such as `color.red`. -/
  | name (name : String) (position : Nat)
  /-- `target[offset]`, with the position of the bracket. -/
  | history (target offset : Expr) (position : Nat)
  | unary (op : UnaryOp) (operand : Expr)
  | binary (op : BinaryOp) (left right : Expr)
  | ternary (cond yes no : Expr)
  | call (c : CallOf Expr)
  deriving Repr

abbrev Call := CallOf Expr

/-- The position of the leftmost node that has one; zero if none has. -/
def Expr.position : Expr → Nat
  | name _ p => p
  | history _ _ p => p
  | call c => c.position
  | unary _ e => e.position
  | binary _ l _ => l.position
  | ternary c _ _ => c.position
  | number _ | flag _ | text _ | na => 0

inductive DeclKind where
  /-- `x = …`, evaluated at every bar. -/
  | binding
  /-- `const x = …`, evaluated once. -/
  | constant
  /-- `var x = …`, evaluated once and then kept until it is reassigned. -/
  | persistent
  deriving DecidableEq, Repr

/-- What a script returns: a value, or a record. -/
inductive Returned where
  | single (e : Expr)
  | named (fields : List (String × Expr))
  deriving Repr

inductive Statement where
  | declare (kind : DeclKind) (name : String) (value : Expr) (position : Nat)
  /-- `x := …` -/
  | reassign (name : String) (value : Expr) (position : Nat)
  /-- `[a, b] = f(…)` -/
  | unpack (names : List String) (call : Call) (position : Nat)
  | expr (e : Expr)
  | result (value : Returned) (position : Nat)
  deriving Repr

/-- The position of a statement. -/
def Statement.position : Statement → Nat
  | declare _ _ _ p | reassign _ _ p | unpack _ _ p | result _ p => p
  | expr e => e.position

end BarScript
