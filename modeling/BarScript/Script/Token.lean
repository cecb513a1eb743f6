import BarScript.Script.Tree
import BarScript.Text.Blank
import BarScript.Text.Bytes
import BarScript.Text.Numeral

/-!
# Tokens

A source text is a list of lexemes: words, numbers, quoted texts, line ends, and single symbols.
Blanks and comments, which run from `//` to the end of the line, are left out. A quote that opens no
complete text, and a point that starts no number, are symbols. A lexeme knows where it starts and
stops, so that the parser can tell lexemes that touch from those that do not.
-/

namespace BarScript

inductive Token where
  /-- A name or a keyword. -/
  | word (text : String)
  | number (value : Literal)
  /-- A quoted text, without its quotes. -/
  | text (value : String)
  | newline
  | symbol (c : Char)
  deriving DecidableEq, Repr

/-- A token with its first character and its place in the source. -/
structure Lexeme where
  token : Token
  first : Char
  /-- The byte offset of the first character. -/
  start : Nat
  /-- The byte offset behind the last character. -/
  stop : Nat
  deriving DecidableEq, Repr

namespace Token

/-- A word starts with a letter or an underscore. -/
def startsWord (c : Char) : Bool := Text.isLetter c || c == '_'

/-- A word goes on with letters, numerals and underscores. -/
def continuesWord (c : Char) : Bool := Text.isLetter c || Text.isNumeral c || c == '_'

/-- The character that a backslash and another character stand for. -/
def escaped : Char → Char
  | 'n' => '\n'
  | 't' => '\t'
  | c => c

/-- The quoted text behind an opening quote, and how many characters it has with the closing quote.
There is none if the line or the source ends first. -/
def quoted? (quote : Char) : List Char → Option (List Char × Nat)
  | [] => none
  | '\\' :: [] => none
  | '\\' :: c :: cs => (quoted? quote cs).map fun (t, n) => (escaped c :: t, n + 2)
  | c :: cs =>
    if c = quote then some ([], 1)
    else if c = '\n' then none
    else (quoted? quote cs).map fun (t, n) => (c :: t, n + 1)

/-- The token that starts with `c` and goes on into `cs`, and how many characters of `cs` belong to
it; no token for blanks and comments. -/
def munch (c : Char) (cs : List Char) : Option Token × Nat :=
  if c = '\n' then (some .newline, 0)
  else if Text.isBlank c then (none, 0)
  else if c = '/' ∧ cs.head? = some '/' then (none, (cs.takeWhile (· != '\n')).length)
  else if startsWord c then
    let more := cs.takeWhile continuesWord
    (some (.word (String.ofList (c :: more))), more.length)
  else if c.isDigit ∨ c = '.' then
    match Literal.front? (c :: cs) with
    | some (value, n) => (some (.number value), n - 1)
    | none => (some (.symbol c), 0)
  else if c = '"' ∨ c = '\'' then
    match quoted? c cs with
    | some (t, n) => (some (.text (String.ofList t)), n)
    | none => (some (.symbol c), 0)
  else (some (.symbol c), 0)

/-- The lexemes of a text that starts at the byte offset `start`. -/
def lexemes (start : Nat) : List Char → List Lexeme
  | [] => []
  | c :: cs =>
    let (token, n) := munch c cs
    let stop := start + Text.byteSize (c :: cs.take n)
    let rest := lexemes stop (cs.drop n)
    match token with
    | some t => ⟨t, c, start, stop⟩ :: rest
    | none => rest
termination_by cs => cs.length
decreasing_by simp only [List.length_drop, List.length_cons]; omega

end Token

end BarScript
