/-!
# Files

What the library asks of a file system, as a class of monads (`Files`): texts by path, the names in a
directory, and writing a text. A program runs on the files of the system; `Files/Tree.lean` has files
that are a value.
-/

namespace BarScript

/-- Why a path cannot be used as asked. -/
inductive FileFault where
  | notFound
  | notDirectory
  | isDirectory
  | nameTooLong
  | nulInPath
  | notUtf8
  | other (reason : String)
  deriving DecidableEq, Repr

/-- The fault in words. -/
def FileFault.message : FileFault → String
  | notFound => "No such file or directory (os error 2)"
  | notDirectory => "Not a directory (os error 20)"
  | isDirectory => "Is a directory (os error 21)"
  | nameTooLong => "File name too long (os error 36)"
  | nulInPath => "file name contained an unexpected NUL byte"
  | notUtf8 => "stream did not contain valid UTF-8"
  | other reason => reason

class Files (m : Type → Type) where
  /-- The text of a file. -/
  readText : String → m (Except FileFault String)
  /-- The names of the files and directories in a directory. -/
  names : String → m (Except FileFault (List String))
  /-- Something is at a path. -/
  isThere : String → m Bool
  /-- Writes a file, which is created if it is not there. -/
  writeText : String → String → m (Except FileFault Unit)

/-- The path of a name in a directory; a name that is an absolute path stands alone. -/
def joinPath (directory name : String) : String :=
  if name.startsWith "/" || directory.isEmpty then name
  else if directory.endsWith "/" then directory ++ name
  else directory ++ "/" ++ name

end BarScript
