import BarScript.Files

/-!
# Files as a value

A `FileTree` lists the files below the current directory by their paths; a directory is there when a
file is below it. `FileTree.locate` follows a path as a file system does: name by name, with `.` and
`..`. Of what lies outside of the tree only that is known which is there on every system: the
directories above the tree, the directories at the root, and the null device.
-/

namespace BarScript

/-- What a file holds. -/
inductive FileContent where
  | text (s : String)
  /-- Bytes that are not a text. -/
  | binary
  deriving DecidableEq, Repr

structure FileTree where
  /-- The files, by the names on the way to them. -/
  files : List (List String × FileContent)
  deriving DecidableEq, Repr

/-- What a path leads to. -/
inductive Place where
  | file (path : List String) (content : FileContent)
  | directory (path : List String)
  /-- A directory above the tree. -/
  | above
  /-- A directory of the system, by its names from the root on. -/
  | system (path : List String)
  /-- The null device, which holds nothing and takes everything. -/
  | nothing
  deriving DecidableEq, Repr

namespace FileTree

/-- What is at a path of plain names. -/
def find? (t : FileTree) (path : List String) : Option Place :=
  match t.files.find? (·.1 == path) with
  | some (path, content) => some (.file path content)
  | none =>
    if path.isEmpty || t.files.any fun f => path.isPrefixOf f.1 then some (.directory path) else none

/-- The directories at the root of a system. -/
def systemDirectories : List String := ["bin", "dev", "etc", "home", "proc", "tmp", "usr", "var"]

/-- What is at a path from the root on. -/
def systemPlace? : List String → Option Place
  | [] => some (.system [])
  | [name] => if name ∈ systemDirectories then some (.system [name]) else none
  | ["dev", "null"] => some .nothing
  | _ => none

/-- More bytes than this a name cannot have. -/
def maxNameSize : Nat := 255

/-- More bytes than this a path cannot have. -/
def maxPathSize : Nat := 4095

/-- The directory that a directory is in. -/
def parent : Place → Place
  | .directory path => if path.isEmpty then .above else .directory path.dropLast
  | .system path => .system path.dropLast
  | place => place

/-- What a directory has under a plain name. -/
def child? (t : FileTree) (place : Place) (name : String) : Option Place :=
  match place with
  | .directory path => t.find? (path ++ [name])
  | .system path => systemPlace? (path ++ [name])
  | _ => none

/-- Follows a name from a place. -/
def enter (t : FileTree) (place : Place) (name : String) : Except FileFault Place :=
  match place with
  | .file .. | .nothing => .error .notDirectory
  | _ =>
    if name = "" ∨ name = "." then .ok place
    else if name = ".." then .ok (parent place)
    else if name.utf8ByteSize > maxNameSize then .error .nameTooLong
    else
      match t.child? place name with
      | some p => .ok p
      | none => .error .notFound

/-- The pieces of a path between slashes. -/
def pieces (path : String) : List String := (path.splitOn "/")

/-- Follows names from a place. -/
def follow (t : FileTree) (place : Place) (names : List String) : Except FileFault Place :=
  names.foldlM t.enter place

/-- Where a path starts. -/
def start (path : String) : Place :=
  if path.startsWith "/" then .system [] else .directory []

/-- Why a text is no path, if it is none. -/
def pathFault? (path : String) : Option FileFault :=
  if path.isEmpty then some .notFound
  else if path.toList.contains '\x00' then some .nulInPath
  else if path.utf8ByteSize > maxPathSize then some .nameTooLong
  else none

/-- What a path leads to. -/
def locate (t : FileTree) (path : String) : Except FileFault Place :=
  match pathFault? path with
  | some fault => .error fault
  | none => t.follow (start path) (pieces path)

/-- The text of a file. -/
def readText (t : FileTree) (path : String) : Except FileFault String :=
  match t.locate path with
  | .error fault => .error fault
  | .ok (.file _ (.text s)) => .ok s
  | .ok (.file _ .binary) => .error .notUtf8
  | .ok .nothing => .ok ""
  | .ok _ => .error .isDirectory

/-- The names right below a path. -/
def namesBelow (t : FileTree) (path : List String) : List String :=
  (t.files.filterMap fun f =>
    if path.isPrefixOf f.1 then f.1[path.length]? else none).eraseDups

/-- The names in a directory; those outside of the tree are not known. -/
def names (t : FileTree) (path : String) : Except FileFault (List String) :=
  match t.locate path with
  | .error fault => .error fault
  | .ok (.directory path) => .ok (t.namesBelow path)
  | .ok (.file ..) | .ok .nothing => .error .notDirectory
  | .ok _ => .ok []

/-- Something is at a path. -/
def isThere (t : FileTree) (path : String) : Bool := (t.locate path).isOk

/-- Puts a file at a path of plain names. -/
def put (t : FileTree) (path : List String) (s : String) : FileTree :=
  if t.files.any (·.1 == path) then
    ⟨t.files.map fun f => if f.1 == path then (path, .text s) else f⟩
  else ⟨t.files ++ [(path, .text s)]⟩

/-- The pieces of a path, split in front of the last one that is not empty; whether empty ones come
behind it. -/
def splitLast (path : String) : List String × Option String × Bool :=
  let reversed := (pieces path).reverse
  match reversed.dropWhile (·.isEmpty) with
  | [] => ([], none, true)
  | last :: front => (front.reverse, some last, (reversed.head?.map (·.isEmpty)).getD false)

/-- Puts a file with a name into a directory. -/
def writeAt (t : FileTree) (place : Place) (name s : String) : Except FileFault FileTree :=
  match place, t.enter place name with
  | _, .ok (.file path _) => .ok (t.put path s)
  | _, .ok .nothing => .ok t
  | _, .ok _ => .error .isDirectory
  | .directory path, .error .notFound => .ok (t.put (path ++ [name]) s)
  | _, .error .notFound => .ok t
  | _, .error fault => .error fault

/-- The place can be entered. -/
def isDirectory : Place → Bool
  | .file .. | .nothing => false
  | _ => true

/-- Writes a file. What is written outside of the tree does not show in it. -/
def writeText (t : FileTree) (path s : String) : Except FileFault FileTree :=
  match pathFault? path with
  | some fault => .error fault
  | none =>
    match splitLast path with
    | (_, none, _) => .error .isDirectory
    | (front, some name, trailing) =>
      match t.follow (start path) front with
      | .error fault => .error fault
      | .ok place =>
        if !isDirectory place then .error .notDirectory
        else if trailing then .error .isDirectory
        else t.writeAt place name s

/-- A path of plain names as a text. -/
def pathText (path : List String) : String := "/".intercalate path

end FileTree

instance : Files (StateM FileTree) where
  readText path := do return (← get).readText path
  names path := do return (← get).names path
  isThere path := do return (← get).isThere path
  writeText path s := do
    match (← get).writeText path s with
    | .ok t => set t; return .ok ()
    | .error fault => return .error fault

end BarScript
