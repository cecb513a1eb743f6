import BarScript.Failure
import BarScript.Files

/-!
# Sessions with a terminal

While a command works it prints results and tells what it does, on two channels, and it may end with
a failure. What it has said until then stays said.
-/

namespace BarScript

/-- What has been said on the two channels. -/
structure Transcript where
  printed : String
  told : String
  deriving DecidableEq, Repr

/-- A computation of a command on files in the monad `m`. -/
abbrev CommandM (m : Type → Type) := ExceptT Failure (StateT Transcript m)

namespace CommandM

variable {m : Type → Type} [Monad m]

/-- Prints a text. -/
def print (s : String) : CommandM m Unit :=
  modify fun (t : Transcript) => { t with printed := t.printed ++ s }

/-- Prints a line. -/
def printLine (s : String) : CommandM m Unit := print (s ++ "\n")

/-- Tells something in a line. -/
def tell (s : String) : CommandM m Unit :=
  modify fun (t : Transcript) => { t with told := t.told ++ s ++ "\n" }

/-- Does something with the files. -/
def onFiles {β : Type} (x : m β) : CommandM m β := liftM x

end CommandM

end BarScript
