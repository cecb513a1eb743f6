import BarScript.Series
import BarScript.Failure

/-!
# Results of a run

Every bar gives one output: a value, or values by name. The results are columns with one entry per
bar, in the order in which the names first appeared; a name that a bar does not give is unavailable
there. The first output decides which of the two forms a run has.
-/

namespace BarScript

/-- A number, or a series that stands for its newest element. -/
inductive Value (α : Type) where
  | number (x : α)
  | series (s : Series α)
  deriving DecidableEq

/-- The number at the current bar. -/
def Value.current {α : Type} [Arith α] : Value α → α
  | number x => x
  | series s => s.current?.getD Arith.nan

/-- What a step gives for a bar. -/
inductive StepOutput (α : Type) where
  | scalar (v : Value α)
  | named (fields : List (String × Value α))
  deriving DecidableEq

inductive Columns (α : Type) where
  | none
  | scalar (values : Array α)
  | named (columns : List (String × Array α))
  deriving DecidableEq

structure Results (α : Type) where
  rows : Nat
  columns : Columns α
  deriving DecidableEq

namespace Results

variable {α : Type}

def empty : Results α := ⟨0, .none⟩

/-- The only column, if the outputs are single values. -/
def scalar? (r : Results α) : Option (Array α) :=
  match r.columns with
  | .scalar values => some values
  | _ => none

/-- The column of a name. -/
def column? (r : Results α) (name : String) : Option (Array α) :=
  match r.columns with
  | .named columns => (columns.find? (·.1 == name)).map (·.2)
  | _ => none

def names (r : Results α) : List String :=
  match r.columns with
  | .named columns => columns.map (·.1)
  | _ => []

variable [Arith α]

/-- Sets entry `rows` of the column of a name. A new column is unavailable before that entry, and
a second value for the same entry replaces the first. -/
def setField (rows : Nat) (name : String) (x : α) :
    List (String × Array α) → List (String × Array α)
  | [] => [(name, (Array.replicate rows Arith.nan).push x)]
  | (n, column) :: rest =>
    if n = name then
      let column := if column.size > rows then column.take rows else column
      (n, column.push x) :: rest
    else (n, column) :: setField rows name x rest

/-- A column with an entry for the last row. -/
def filled (rows : Nat) (column : Array α) : Array α :=
  if column.size < rows then column ++ Array.replicate (rows - column.size) Arith.nan else column

/-- Appends the named values of a bar. -/
def pushNamed (rows : Nat) (columns : List (String × Array α)) (fields : List (String × Value α)) :
    List (String × Array α) :=
  let columns := fields.foldl (fun cols f => setField rows f.1 f.2.current cols) columns
  columns.map fun c => (c.1, filled (rows + 1) c.2)

/-- Appends the output of a bar. -/
def push (r : Results α) (bar : Nat) (output : StepOutput α) : Except Failure (Results α) :=
  match output, r.columns with
  | .scalar v, .none => .ok ⟨r.rows + 1, .scalar #[v.current]⟩
  | .scalar v, .scalar values => .ok ⟨r.rows + 1, .scalar (values.push v.current)⟩
  | .named fields, .none => .ok ⟨r.rows + 1, .named (pushNamed r.rows [] fields)⟩
  | .named fields, .named columns => .ok ⟨r.rows + 1, .named (pushNamed r.rows columns fields)⟩
  | _, _ => .error (.resultShape bar)

end Results

end BarScript
