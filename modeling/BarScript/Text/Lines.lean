/-!
# Lines

The lines of a text are the pieces between its line breaks.
-/

namespace BarScript.Text

/-- The pieces of a list of characters between line breaks. -/
def lines : List Char → List (List Char)
  | [] => [[]]
  | c :: cs =>
    if c = '\n' then [] :: lines cs
    else
      match lines cs with
      | [] => [[c]]
      | l :: ls => (c :: l) :: ls

end BarScript.Text
