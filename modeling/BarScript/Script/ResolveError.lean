import BarScript.Failure
import BarScript.Script.Study

/-!
# Resolution errors

Why a script that can be parsed cannot be compiled, where, and in which words.
-/

namespace BarScript

inductive ResolveFault where
  /-- A text stands where a number is needed. -/
  | textAsValue
  | alreadyDeclared (name : String)
  | unreachable
  | reassignsConstant (name : String)
  | reassignsPlot (name : String)
  | unknownVariable (name : String)
  | arityMismatch (values names : Nat)
  | plotAsValue (name : String)
  | colorAsValue (name : String)
  | unknownName (name : String)
  | unknownFunction (name : String)
  | missingArgument (function param : String)
  | positionalOnly (function : String)
  | wrongCount (function : String) (expected : ArgCount) (got : Nat)
  /-- A call that gives several values stands where one is needed. -/
  | manyValues (function : String) (values : Nat)
  | drawingAsValue (function : String)
  | duplicateArgument (name : String)
  | noParameter (function param : String)
  | tooManyPositional (function : String) (most : Nat)
  | givenTwice (param : String)
  | notText (what : String)
  | unknownColor (name : String)
  | notPlot (name : String)
  | fillNeedsPlot
  | overlayNotFlag
  deriving DecidableEq, Repr

namespace ResolveFault

/-- The fault in words. -/
def message : ResolveFault → String
  | textAsValue => "strings are only allowed as titles and options"
  | alreadyDeclared name => s!"'{name}' is already declared, use := to reassign"
  | unreachable => "unreachable statement after return"
  | reassignsConstant name => s!"cannot reassign constant '{name}'"
  | reassignsPlot name => s!"cannot reassign plot '{name}'"
  | unknownVariable name => s!"unknown variable '{name}'"
  | arityMismatch values names => s!"call returns {values} values but {names} names are given"
  | plotAsValue name => s!"plot '{name}' can only be used as a fill argument"
  | colorAsValue name => s!"'{name}' is a color and only allowed in options"
  | unknownName name => s!"unknown name '{name}'"
  | unknownFunction name => s!"unknown function '{name}'"
  | missingArgument function param => s!"'{function}' is missing argument '{param}'"
  | positionalOnly function => s!"'{function}' takes positional arguments only"
  | wrongCount function expected got =>
    let expected := expected.text
    s!"'{function}' expects {expected} arguments, got {got}"
  | manyValues function values =>
    s!"'{function}' returns {values} values, assign it with [a, b, ...] = {function}(...)"
  | drawingAsValue function => s!"'{function}' can only be used as a statement"
  | duplicateArgument name => s!"duplicate argument '{name}'"
  | noParameter function param => s!"'{function}' has no parameter '{param}'"
  | tooManyPositional function most => s!"'{function}' takes at most {most} positional arguments"
  | givenTwice param => s!"argument '{param}' given twice"
  | notText what => s!"{what} must be a string literal"
  | unknownColor name => s!"unknown color '{name}'"
  | notPlot name => s!"'{name}' is not a plot"
  | fillNeedsPlot => "fill needs a plot variable or a plot title"
  | overlayNotFlag => "overlay must be true or false"

end ResolveFault

/-- A fault at a byte offset of the source. -/
structure ResolveError where
  position : Nat
  fault : ResolveFault
  deriving DecidableEq, Repr

namespace ResolveError

def failure (e : ResolveError) : Failure := .compile ⟨e.fault.message, e.position⟩

end ResolveError

end BarScript
