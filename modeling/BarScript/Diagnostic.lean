import BarScript.Text.Bytes

/-!
# Diagnostics

A diagnostic is a message about a position of a source text. `Diagnostic.render` shows the line the
position is on with a caret under its column.
-/

namespace BarScript

/-- A message about the byte offset `position` of a source text. -/
structure Diagnostic where
  message : String
  position : Nat
  deriving DecidableEq, Repr

namespace Diagnostic

/-- The one-line form. -/
def headline (d : Diagnostic) : String :=
  s!"parse error at position {d.position}: {d.message}"

/-- What stands after the last line break. -/
def lastLine (cs : List Char) : List Char :=
  (cs.reverse.takeWhile (· != '\n')).reverse

/-- The number of the line, the line, a caret under the column, and the headline. A position past
the end of the text is shown at its end. -/
def render (d : Diagnostic) (source : String) : String :=
  let (before, after) := Text.byteSplit d.position source.toList
  let number := before.count '\n' + 1
  let left := lastLine before
  let line := left ++ after.takeWhile (· != '\n')
  let caret := String.ofList (List.replicate left.length ' ' ++ ['^'])
  s!"line {number}:\n{String.ofList line}\n{caret}\n{d.headline}"

end Diagnostic

end BarScript
