import BarScript.Output.Color
import BarScript.Script.Arguments
import BarScript.Script.Program

/-!
# Resolution of expressions

Every name is looked up once. A scope knows the declared names and how many slots and handles have
been given away; slots are numbered within their bank, handles over the whole script, each in the
order in which they are needed. A series argument that is no bare name, and the target of a history
access that is none, gets a slot of the computed bank after its parts.
-/

namespace BarScript

/-- What a declared name stands for. -/
inductive Binding where
  | series (bank : Bank) (id : Nat)
  /-- The title of a plot. -/
  | plot (title : String)
  deriving DecidableEq, Repr

/-- The names declared so far, and the numbers given away. -/
structure Scope where
  names : List (String × Binding)
  /-- How many slots of a bank are taken. -/
  constants : Nat
  states : Nat
  bindings : Nat
  computed : Nat
  /-- How many cached calls there are. -/
  handles : Nat
  deriving DecidableEq, Repr

namespace Scope

def empty : Scope := ⟨[], 0, 0, 0, 0, 0⟩

/-- What a name stands for. -/
def find? (s : Scope) (name : String) : Option Binding :=
  (s.names.find? (·.1 == name)).map (·.2)

/-- How many slots of a bank are taken. -/
def taken (s : Scope) : Bank → Nat
  | .constants => s.constants
  | .states => s.states
  | .bindings => s.bindings
  | .computed => s.computed

/-- Takes a slot of a bank. -/
def take (s : Scope) : Bank → Scope
  | .constants => { s with constants := s.constants + 1 }
  | .states => { s with states := s.states + 1 }
  | .bindings => { s with bindings := s.bindings + 1 }
  | .computed => { s with computed := s.computed + 1 }

end Scope

/-- A computation on a scope, which may fail. -/
abbrev ResolveM := StateT Scope (Except ResolveError)

namespace Resolve

/-- Fails at a position. -/
def fail {β : Type} (position : Nat) (fault : ResolveFault) : ResolveM β :=
  throw ⟨position, fault⟩

/-- A fresh slot of a bank. -/
def slot (b : Bank) : ResolveM Nat := modifyGet fun s => (s.taken b, s.take b)

/-- A fresh handle. -/
def handle : ResolveM Nat := modifyGet fun s => (s.handles, { s with handles := s.handles + 1 })

/-- Declares a name. -/
def declare (name : String) (position : Nat) (b : Binding) : ResolveM Unit := do
  if ((← get).find? name).isSome then fail position (.alreadyDeclared name)
  modify fun s => { s with names := s.names ++ [(name, b)] }

/-- The arguments of a call by parameter. -/
def bind {ε : Type} (c : CallOf ε) (params : List String) (allowExtra : Bool) :
    ResolveM (BoundArgs ε) :=
  match c.bind params allowExtra with
  | .ok b => pure b
  | .error e => throw e

/-- The series of a node that has none of its own. -/
def computed (n : Node) : ResolveM Source := return .computed (← slot .computed) n

/-- The value of a name at an offset. -/
def name (name : String) (position : Nat) (offset : Option Node) : ResolveM Node := do
  match (← get).find? name with
  | some (.series bank id) => return .read (.slot bank id) offset
  | some (.plot _) => fail position (.plotAsValue name)
  | none =>
  match Price.ofName? name with
  | some p => return .read (.price p) offset
  | none =>
  match Clock.ofName? name with
  | some c => return .clock c offset
  | none =>
    let value ←
      if name = "bar_index" then pure Node.barIndex
      else if name = "ta.tr" then pure (.study ⟨.tr, [.number (.number (.ofNat 0))], none⟩)
      else if name.startsWith "color." then fail position (.colorAsValue name)
      else fail position (.unknownName name)
    match offset with
    | none => return value
    | some offset => return .read (← computed value) (some offset)

/-- The series that a bare name stands for, if it does. -/
def namedSource? (s : Scope) (e : Expr) : Option Source :=
  match e with
  | .name name _ =>
    match s.find? name with
    | some (.series bank id) => some (.slot bank id)
    | some (.plot _) => none
    | none => (Price.ofName? name).map .price
  | _ => none

/-- The functions that draw. -/
def drawingNames : List String :=
  ["plot", "plotchar", "plotcandle", "plotbar", "fill", "hline", "indicator"]

/-- Refuses a call that has an argument by name, or too many or too few. -/
def checkPositional (c : Call) (count : ArgCount) : ResolveM Unit := do
  match c.args.find? (·.name.isSome) with
  | some a => fail a.position (.positionalOnly c.name)
  | none =>
    if !count.admits c.args.length then
      fail c.position (.wrongCount c.name count c.args.length)

/-- The functions of one or two numbers that are neither indicators nor mathematical. -/
def checkFunction (c : Call) : ResolveM Unit :=
  if c.name ∈ drawingNames then fail c.position (.drawingAsValue c.name)
  else if c.name.startsWith "color." then fail c.position (.colorAsValue c.name)
  else fail c.position (.unknownFunction c.name)

/-- Resolves the elements of a list, in their order. -/
def each {β γ : Type} (f : β → ResolveM γ) : List β → ResolveM (List γ)
  | [] => return []
  | x :: xs => do
    let y ← f x
    return y :: (← each f xs)

mutual

/-- The value of an expression. -/
def expr (e : Expr) : ResolveM Node :=
  match e with
  | .number l => return .number l
  | .flag b => return .flag b
  | .na => return .na
  | .text _ => fail 0 .textAsValue
  | .name n position => name n position none
  | .history target offset _ => do
    let offset ← expr offset
    match target with
    | .name n position => name n position (some offset)
    | target =>
      let value ← expr target
      return .read (← computed value) (some offset)
  | .unary op operand => return .unary op (← expr operand)
  | .binary op left right => do
    let left ← expr left
    let right ← expr right
    return .binary op left right
  | .ternary cond yes no => do
    let cond ← expr cond
    let yes ← expr yes
    let no ← expr no
    return .ternary cond yes no
  | .call c => call c
termination_by 4 * sizeOf e

/-- A series argument. -/
def source (e : Expr) : ResolveM Source := do
  match namedSource? (← get) e with
  | some s => return s
  | none =>
    let value ← expr e
    computed value
termination_by 4 * sizeOf e + 1

/-- An argument of an indicator. -/
def argument (c : Call) (p : Param) (arg : Option { e : Expr // ∃ a ∈ c.args, a.value = e }) :
    ResolveM Bound :=
  match p.kind, arg with
  | .series, some e => have := sizeOf_arg_lt e.2; return .series (← source e.1)
  | .optionalSeries, some e => have := sizeOf_arg_lt e.2; return .series (← source e.1)
  | .number, some e => have := sizeOf_arg_lt e.2; return .number (← expr e.1)
  | .optionalNumber, some e => have := sizeOf_arg_lt e.2; return .number (← expr e.1)
  | .default _, some e => have := sizeOf_arg_lt e.2; return .number (← expr e.1)
  | .default l, none => return .number (.number l)
  | .optionalSeries, none => return .absent
  | .optionalNumber, none => return .absent
  | .series, none => fail c.position (.missingArgument c.name p.name)
  | .number, none => fail c.position (.missingArgument c.name p.name)
termination_by 4 * sizeOf c
decreasing_by all_goals (simp only [wfParam] at * <;> omega)

/-- A call of an indicator. -/
def study (c : Call) : ResolveM StudyCall := do
  match Study.ofName? c.name with
  | none => fail c.position (.unknownFunction c.name)
  | some s =>
    let bound ← bind c.attach (s.params.map (·.name)) false
    let args ← each (fun pa => argument c pa.1 pa.2) (s.params.zip bound.slots)
    if s.cached then return ⟨s, args, some (← handle)⟩ else return ⟨s, args, none⟩
termination_by 4 * sizeOf c + 1

/-- A call that gives one number. -/
def call (c : Call) : ResolveM Node := do
  if c.name.startsWith "ta." then
    let s ← study c
    if s.arity ≠ 1 then fail c.position (.manyValues c.name s.arity)
    return .study s
  else
    let positional := each (fun (a : Arg { e : Expr // ∃ a ∈ c.args, a.value = e }) =>
      have := sizeOf_arg_lt a.value.2
      expr a.value.1) c.attach.args
    match MathFn.ofName? c.name with
    | some f =>
      checkPositional c f.argCount
      return .math f (← positional)
    | none =>
      if c.name = "na" then
        checkPositional c (.exactly 1)
        let args ← positional
        return .isNa (args.headD .na)
      else if c.name = "nz" then
        checkPositional c ⟨1, some 2⟩
        let args ← positional
        return .nz (args.headD .na) (args.getD 1 (.number (.ofNat 0)))
      else
        checkFunction c
        return .na
termination_by 4 * sizeOf c + 2

end

end Resolve

end BarScript
