/-!
# Positions in a text

Positions are byte offsets into the UTF-8 form of a text. `Text.byteSplit` cuts a text at such an
offset; an offset inside a character cuts in front of that character.
-/

namespace BarScript.Text

/-- The number of bytes of a list of characters. -/
def byteSize : List Char → Nat
  | [] => 0
  | c :: cs => c.utf8Size + byteSize cs

/-- The longest front part that has at most `n` bytes, and the rest. -/
def byteSplit (n : Nat) : List Char → List Char × List Char
  | [] => ([], [])
  | c :: cs =>
    if c.utf8Size ≤ n then
      let (front, rest) := byteSplit (n - c.utf8Size) cs
      (c :: front, rest)
    else ([], c :: cs)

/-- Nothing is lost by a cut. -/
theorem byteSplit_append (n : Nat) (cs : List Char) :
    (byteSplit n cs).1 ++ (byteSplit n cs).2 = cs := by
  induction cs generalizing n with
  | nil => rfl
  | cons c cs ih =>
    unfold byteSplit
    split
    · simp [ih]
    · rfl

end BarScript.Text
