import BarScript.Failure

/-!
# Syntax errors

Why a text is not a script, where, and in which words.
-/

namespace BarScript

/-- What stands where something else was expected. -/
inductive Found where
  | endOfInput
  | endOfLine
  | word (w : String)
  | character (c : Char)
  deriving DecidableEq, Repr

def Found.text : Found → String
  | endOfInput => "end of input"
  | endOfLine => "end of line"
  | word w => s!"'{w}'"
  | character c => s!"'{c}'"

inductive SyntaxFault where
  | expectedCharacter (c : Char) (found : Found)
  | expectedName (found : Found)
  | reservedWord (w : String)
  | expectedNumber
  | unterminatedText
  | expectedExpression (found : Found)
  | duplicateKey (key : String)
  | expectedEqualsAfterTuple (found : Found)
  | expectedEqualsAfter (name : String) (found : Found)
  /-- The right side of `[a, b] = …` is no call. -/
  | tupleNeedsCall
  /-- Something follows a statement on its line. -/
  | afterStatement (found : Found)
  deriving DecidableEq, Repr

namespace SyntaxFault

/-- The fault in words. -/
def message : SyntaxFault → String
  | expectedCharacter c f =>
    let found := f.text
    s!"expected '{c}', found {found}"
  | expectedName f =>
    let found := f.text
    s!"expected name, found {found}"
  | reservedWord w => s!"'{w}' is a reserved word"
  | expectedNumber => "expected number"
  | unterminatedText => "unterminated string"
  | expectedExpression f =>
    let found := f.text
    s!"expected expression, found {found}"
  | duplicateKey key => s!"duplicate key '{key}'"
  | expectedEqualsAfterTuple f =>
    let found := f.text
    s!"expected '=' after tuple, found {found}"
  | expectedEqualsAfter name f =>
    let found := f.text
    s!"expected '=' after '{name}', found {found}"
  | tupleNeedsCall => "tuple assignment needs a function call"
  | afterStatement f =>
    let found := f.text
    s!"unexpected {found} after statement"

end SyntaxFault

/-- A fault at a byte offset of the source. -/
structure SyntaxError where
  fault : SyntaxFault
  position : Nat
  deriving DecidableEq, Repr

namespace SyntaxError

def diagnostic (e : SyntaxError) : Diagnostic := ⟨e.fault.message, e.position⟩

def failure (e : SyntaxError) : Failure := .parse e.diagnostic

end SyntaxError

end BarScript
