import BarScript.Market.Price
import BarScript.Run.Store
import BarScript.Script.Study

/-!
# Resolved scripts

A program is a script in which every name has been resolved: variables are slots of the banks, every
cached indicator call has a handle, and every series that an indicator computes from, or that
history is read of, is a price, a slot, or a computed series with a slot of its own.
-/

namespace BarScript

/-- An indicator call with arguments `β`. -/
structure StudyCallOf (β : Type) where
  study : Study
  args : List β
  handle : Option Nat

mutual

/-- Where a series comes from. -/
inductive Source where
  | price (p : Price)
  | slot (bank : Bank) (id : Nat)
  /-- A slot of the computed bank that is set to the value of a node before it is read. -/
  | computed (id : Nat) (value : Node)

/-- An argument of an indicator. -/
inductive Bound where
  | series (s : Source)
  | number (n : Node)
  | absent

/-- An expression. -/
inductive Node where
  | number (l : Literal)
  | flag (b : Bool)
  | na
  /-- An element of a series, the current one if there is no offset. -/
  | read (source : Source) (offset : Option Node)
  | clock (c : Clock) (offset : Option Node)
  | barIndex
  | unary (op : UnaryOp) (operand : Node)
  | binary (op : BinaryOp) (left right : Node)
  | ternary (cond yes no : Node)
  | study (call : StudyCallOf Bound)
  | math (f : MathFn) (args : List Node)
  | isNa (operand : Node)
  | nz (operand replacement : Node)

end

abbrev StudyCall := StudyCallOf Bound

/-- How many values a call gives. -/
def StudyCallOf.arity (c : StudyCall) : Nat :=
  let third : Option Bound := c.args[2]?
  match c.study, third with
  | .supertrend, _ => 2
  | .vwap, some (.series _) => 3
  | .vwap, some (.number _) => 3
  | _, _ => 1

/-- The value of an option. -/
inductive OptionNode where
  | text (s : String)
  | flag (b : Bool)
  | number (n : Node)
  /-- Color channels, the fourth being the opacity. -/
  | rgb (channels : List Node)
  | newColor (base : OptionNode) (alpha : Option Node)

/-- Options in the order in which they are evaluated. -/
abbrev OptionNodes := List (String × OptionNode)

/-- A drawing. -/
inductive Drawing where
  /-- A value, drawn as a character if `char`. -/
  | plot (value : Node) (title : String) (options : OptionNodes) (char : Bool)
  /-- Four prices, drawn as a bar if `bar` and as a candle if not. -/
  | candle (opening high low close : Node) (title : String) (options : OptionNodes) (bar : Bool)
  | fill (plot1 plot2 : String) (options : OptionNodes)
  | hline (price : Node) (title : String) (options : OptionNodes)
  | indicator (title shortTitle : Option String) (overlay : Option Bool)

/-- An instruction. -/
inductive Op where
  | set (bank : Bank) (id : Nat) (value : Node)
  /-- Sets a slot that has never been written. -/
  | init (bank : Bank) (id : Nat) (value : Node)
  /-- Sets bindings to the values of a call. -/
  | unpack (call : StudyCall) (targets : List Nat)
  | eval (n : Node)
  | draw (d : Drawing)

/-- What a program returns at a bar. -/
inductive Result where
  | single (n : Node)
  | named (fields : List (String × Node))

/-- What a program needs. -/
structure Summary where
  statements : Nat
  /-- The slots of constants, states and bindings. -/
  declared : Nat
  /-- The slots of computed arguments. -/
  params : Nat
  /-- The cached calls. -/
  cacheSites : Nat
  deriving DecidableEq, Repr

structure Program where
  ops : List Op
  result : Option Result
  summary : Summary

end BarScript
