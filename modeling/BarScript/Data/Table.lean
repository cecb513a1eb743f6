import BarScript.Csv.Record
import BarScript.Data.CloseTimes
import BarScript.Data.Request
import BarScript.Decimal.Reading
import BarScript.Failure
import BarScript.Market
import BarScript.Text.Blank

/-!
# Tables of bars

A table of bars is a text of comma-separated values whose first record names the columns. Columns may
come in any order, and others may stand between them; case and surrounding blanks do not matter in
the names. The column of close times may be missing. Bars may come in any order too.
-/

namespace BarScript.Table

/-- Where the columns of a bar are. -/
structure Columns where
  openTime : Nat
  closeTime : Option Nat
  opening : Nat
  high : Nat
  low : Nat
  close : Nat
  volume : Nat
  deriving DecidableEq, Repr

/-- A header names a column. -/
def isNamed (name header : String) : Bool :=
  (Text.trimmed header.toList).map Char.toLower == name.toList

/-- The first column with a name. -/
def column? (headers : List String) (name : String) : Option Nat :=
  headers.findIdx? (isNamed name)

/-- The first column with a name, which has to be there. -/
def column (headers : List String) (name : String) : Except Failure Nat :=
  match column? headers name with
  | some i => .ok i
  | none => .error (.data s!"missing {name} column")

/-- The columns of a bar. -/
def columns (headers : List String) : Except Failure Columns := do
  let openTime ← column headers "open_time"
  let opening ← column headers "open"
  let high ← column headers "high"
  let low ← column headers "low"
  let close ← column headers "close"
  let volume ← column headers "volume"
  return ⟨openTime, column? headers "close_time", opening, high, low, close, volume⟩

/-- The field of a column. -/
def field (r : Csv.Record) (name : String) (i : Nat) : Except Failure String :=
  match r.fields[i]? with
  | some text => .ok text
  | none => .error (.data s!"missing {name} value on line {r.line}")

/-- The time in a column. -/
def time (r : Csv.Record) (name : String) (i : Nat) : Except Failure Int := do
  let text ← field r name i
  match Instant.read? text with
  | some t => .ok t.millis
  | none => .error (.data s!"invalid {name} '{text}' on line {r.line}")

/-- The number in a column. -/
def number {α : Type} [Arith α] (r : Csv.Record) (name : String) (i : Nat) : Except Failure α := do
  let text ← field r name i
  match readNumber (Text.trim text) with
  | .ok x => .ok x.value
  | .error fault =>
    let fault := fault.message
    .error (.data s!"invalid {name} value on line {r.line}: {fault}")

variable {α : Type} [Arith α]

/-- The bar of a record. Without a column of close times it closes when it opens. -/
def bar (c : Columns) (r : Csv.Record) : Except Failure (Bar α) := do
  let openTime ← time r "open_time" c.openTime
  let closeTime ← match c.closeTime with
    | some i => time r "close_time" i
    | none => .ok openTime
  let opening ← number r "open" c.opening
  let high ← number r "high" c.high
  let low ← number r "low" c.low
  let close ← number r "close" c.close
  let volume ← number r "volume" c.volume
  return ⟨openTime, closeTime, opening, high, low, close, volume⟩

/-- The bars of records, which must all have as many fields as there are headers. -/
def bars (c : Columns) (width : Nat) : List Csv.Record → Except Failure (List (Bar α))
  | [] => .ok []
  | r :: rs => do
    if r.fields.length ≠ width then
      let message := r.lengthMessage width
      throw (.data s!"CSV parse error: {message}")
    let b ← bar c r
    return b :: (← bars c width rs)

/-- Bars in the order of their opening, with close times if the table gives none. -/
def arranged (c : Columns) (bars : List (Bar α)) : List (Bar α) :=
  let bars := Market.sorted bars
  if c.closeTime.isSome then bars else deriveCloseTimes bars

/-- The headers of a table and its other records. -/
def split (text : String) : List String × List Csv.Record :=
  match Csv.records text with
  | [] => ([], [])
  | header :: rs => (header.fields, rs)

/-- The bars of a table, in the order of their opening. -/
def read (text : String) : Except Failure (List (Bar α)) := do
  let (headers, rs) := split text
  let c ← columns headers
  return arranged c (← bars c headers.length rs)

end BarScript.Table
