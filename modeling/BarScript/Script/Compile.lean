import BarScript.Script.Parser
import BarScript.Script.ResolveDrawing

/-!
# Compilation

A script is compiled statement by statement. A declared name is known from the next statement on; a
binding of a plot may only be used to fill. Nothing may follow a `return`.
-/

namespace BarScript

namespace DeclKind

/-- The bank that the variables of a kind of declaration are in. -/
def bank : DeclKind → Bank
  | binding => .bindings
  | constant => .constants
  | persistent => .states

end DeclKind

/-- What a statement becomes. -/
inductive Compiled where
  | op (o : Op)
  | result (r : Result)

namespace Resolve

/-- The plot that a binding is given, if it is given one. -/
def boundPlot? (kind : DeclKind) (value : Expr) : Option (ResolveM (Drawing × String)) :=
  match kind, value with
  | .binding, .call c =>
    if c.name = "plot" then some (plot c false)
    else if c.name = "plotchar" then some (plot c true)
    else none
  | _, _ => none

/-- A declaration. -/
def declaration (kind : DeclKind) (name : String) (value : Expr) (position : Nat) :
    ResolveM Op := do
  match boundPlot? kind value with
  | some plot =>
    let (drawing, title) ← plot
    declare name position (.plot title)
    return .draw drawing
  | none =>
    let value ← expr value
    let id ← slot kind.bank
    declare name position (.series kind.bank id)
    match kind with
    | .binding => return .set kind.bank id value
    | _ => return .init kind.bank id value

/-- The slot that a reassignment sets. -/
def reassigned (name : String) (position : Nat) : ResolveM (Bank × Nat) := do
  match (← get).find? name with
  | some (.series .constants _) => fail position (.reassignsConstant name)
  | some (.series bank id) => return (bank, id)
  | some (.plot _) => fail position (.reassignsPlot name)
  | none => fail position (.unknownVariable name)

/-- New bindings for the values of a call. -/
def targets (position : Nat) : List String → ResolveM (List Nat)
  | [] => return []
  | name :: names => do
    let id ← slot .bindings
    declare name position (.series .bindings id)
    return id :: (← targets position names)

/-- The fields of a record, in their order. -/
def fields (xs : List (String × Expr)) : ResolveM (List (String × Node)) :=
  each (fun x => do return (x.1, ← expr x.2)) xs

/-- A statement that is an expression. -/
def expression (e : Expr) : ResolveM Op :=
  let plain : ResolveM Op := do return .eval (← expr e)
  match e with
  | .call c =>
    match drawing? c with
    | some d => do return .draw (← d)
    | none => plain
  | _ => plain

/-- A statement. -/
def statement : Statement → ResolveM Compiled
  | .declare kind name value position => do
    return .op (← declaration kind name value position)
  | .reassign name value position => do
    let (bank, id) ← reassigned name position
    let value ← expr value
    return .op (.set bank id value)
  | .unpack names call position => do
    let call ← study call
    if call.arity ≠ names.length then fail position (.arityMismatch call.arity names.length)
    let targets ← targets position names
    return .op (.unpack call targets)
  | .expr e => do return .op (← expression e)
  | .result (.single e) _ => do return .result (.single (← expr e))
  | .result (.named xs) _ => do return .result (.named (← fields xs))

/-- The statements of a script. -/
def statements : List Statement → ResolveM (List Op × Option Result)
  | [] => return ([], none)
  | s :: rest => do
    match ← statement s with
    | .op o =>
      let (ops, result) ← statements rest
      return (o :: ops, result)
    | .result r =>
      match rest with
      | [] => return ([], some r)
      | next :: _ => fail next.position .unreachable

end Resolve

/-- The program of some statements. -/
def compileStatements (ss : List Statement) : Except ResolveError Program := do
  let ((ops, result), scope) ← (Resolve.statements ss).run .empty
  return ⟨ops, result, ⟨ss.length, scope.constants + scope.states + scope.bindings,
    scope.computed, scope.handles⟩⟩

/-- The program of a source text. -/
def compile (source : String) : Except Failure Program :=
  match parse source with
  | .error e => .error e.failure
  | .ok ss =>
    match compileStatements ss with
    | .error e => .error e.failure
    | .ok p => .ok p

end BarScript
