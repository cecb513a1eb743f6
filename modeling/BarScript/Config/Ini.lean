import BarScript.Decimal.Reading
import BarScript.Text.Blank
import BarScript.Text.Lines
import BarScript.Text.Lowercase

/-!
# Configuration files

A configuration file has sections, and in each section keys with values:

    [section]
    key = value   ; a comment
    key: value    # another one

Case does not matter in the names of sections and keys; blanks around names and values are left out.
Keys above the first section belong to the section `default`. Of several values of a key the last
one counts. A key may stand without a value.
-/

namespace BarScript

/-- What is wrong with a line of a configuration file. -/
inductive IniFault where
  | unclosedSection | emptyKey
  deriving DecidableEq, Repr

/-- A fault on a line, counted from one. -/
structure IniError where
  fault : IniFault
  line : Nat
  deriving DecidableEq, Repr

/-- The error in words. -/
def IniError.message (e : IniError) : String :=
  match e.fault with
  | .unclosedSection =>
    s!"line {e.line}: Found opening bracket for section name but no closing bracket"
  | .emptyKey => s!"line {e.line}:0: Key cannot be empty"

/-- A key of a section, in lower case, with its value. -/
structure IniEntry where
  group : String
  key : String
  value : Option String
  deriving DecidableEq, Repr

/-- The entries of a configuration file, the last one first. -/
structure Ini where
  entries : List IniEntry
  deriving DecidableEq, Repr

namespace Ini

def empty : Ini := ⟨[]⟩

/-- A comment starts with a semicolon or a hash. -/
def startsComment (c : Char) : Bool := c == ';' || c == '#'

/-- An equals sign or a colon stands between a key and its value. -/
def isDelimiter (c : Char) : Bool := c == '=' || c == ':'

/-- A name without the blanks around it, in lower case. -/
def name (cs : List Char) : String := Text.lowercase (String.ofList (Text.trimmed cs))

/-- What a line says. -/
inductive Line where
  | blank
  | opens (group : String)
  | sets (key : String) (value : Option String)
  deriving DecidableEq, Repr

/-- The line of a section name, without the bracket that opens it: the name ends at the last bracket
that closes. -/
def sectionLine (cs : List Char) : Except IniFault Line :=
  match cs.reverse.dropWhile (· != ']') with
  | _ :: front => .ok (.opens (name front.reverse))
  | [] => .error .unclosedSection

/-- The line of a key. -/
def keyLine (cs : List Char) : Except IniFault Line :=
  match cs.span (!isDelimiter ·) with
  | ([], _ :: _) => .error .emptyKey
  | (key, _ :: value) => .ok (.sets (name key) (some (String.ofList (Text.trimmed value))))
  | (key, []) => .ok (.sets (name key) none)

/-- Reads a line. -/
def readLine (cs : List Char) : Except IniFault Line :=
  match Text.trimmed (cs.takeWhile (!startsComment ·)) with
  | [] => .ok .blank
  | '[' :: rest => sectionLine rest
  | cs => keyLine cs

/-- Reads lines, the first of which has the number `number` and stands in the section `group`. -/
def readLines (number : Nat) (group : String) (entries : List IniEntry) :
    List (List Char) → Except IniError Ini
  | [] => .ok ⟨entries⟩
  | l :: ls =>
    match readLine l with
    | .error fault => .error ⟨fault, number⟩
    | .ok .blank => readLines (number + 1) group entries ls
    | .ok (.opens group) => readLines (number + 1) group entries ls
    | .ok (.sets key value) => readLines (number + 1) group (⟨group, key, value⟩ :: entries) ls

/-- Reads a configuration file. -/
def read (text : String) : Except IniError Ini :=
  readLines 1 "default" [] (Text.lines text.toList)

/-- The value of a key. -/
def find? (ini : Ini) (group key : String) : Option String :=
  let (group, key) := (Text.lowercase group, Text.lowercase key)
  (ini.entries.find? fun e => e.group == group && e.key == key).bind (·.value)

/-- Sets the value of a key. -/
def set (ini : Ini) (group key value : String) : Ini :=
  ⟨⟨Text.lowercase group, Text.lowercase key, some value⟩ :: ini.entries⟩

/-- The integer that the value of a key is. -/
def integer (ini : Ini) (group key : String) (default : Int) : Int :=
  ((ini.find? group key).bind readInteger?).getD default

/-- The number that the value of a key is. -/
def number {α : Type} [Arith α] (ini : Ini) (group key : String) (default : α) : α :=
  match (ini.find? group key).map readNumber with
  | some (.ok r) => r.value
  | _ => default

/-- The truth value that a word stands for. -/
def truth? (word : String) : Option Bool :=
  let word := Text.lowercase word
  if word ∈ ["true", "yes", "on", "1"] then some true
  else if word ∈ ["false", "no", "off", "0"] then some false
  else none

/-- The truth value that the value of a key is. -/
def flag (ini : Ini) (group key : String) (default : Bool) : Bool :=
  ((ini.find? group key).bind truth?).getD default

end Ini

end BarScript
