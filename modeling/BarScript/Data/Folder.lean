import BarScript.Data.Table
import BarScript.Files

/-!
# Folders of tables

A folder holds one table of bars per series, in the file `TICKER_TIMEFRAME.csv`.
-/

namespace BarScript

/-- The directory of the tables. -/
structure Folder where
  directory : String
  deriving DecidableEq, Repr

namespace Folder

/-- The path of a table. -/
def path (f : Folder) (ticker timeframe : String) : String :=
  joinPath f.directory s!"{ticker}_{timeframe}.csv"

/-- What a file name of a timeframe ends with. -/
def ending (timeframe : String) : String := s!"_{timeframe}.csv"

/-- The ticker of a file name of a timeframe. -/
def ticker? (timeframe fileName : String) : Option String :=
  let name := fileName.toList
  let ending := (ending timeframe).toList
  if ending.isSuffixOf name then some (String.ofList (name.take (name.length - ending.length)))
  else none

/-- The tickers of the file names of a timeframe, sorted. -/
def tickersOf (timeframe : String) (names : List String) : List String :=
  (names.filterMap (ticker? timeframe)).mergeSort fun a b => !decide (b < a)

variable {m : Type → Type} [Monad m] [Files m] {α : Type} [Arith α]

/-- All bars of a series, in the order of their opening. -/
def bars (f : Folder) (ticker timeframe : String) : m (Except Failure (List (Bar α))) := do
  let path := f.path ticker timeframe
  match ← Files.readText path with
  | .ok text => return Table.read text
  | .error fault =>
    let fault := fault.message
    return .error (.data s!"failed to read {path}: {fault}")

/-- The bars that a request asks for. -/
def fetch (f : Folder) (r : Request) : m (Except Failure (List (Bar α))) := do
  return (← f.bars r.ticker r.timeframe).map r.select

omit [Arith α] in
/-- The tickers of a timeframe, sorted. -/
def tickers (f : Folder) (timeframe : String) : m (Except Failure (List String)) := do
  match ← Files.names f.directory with
  | .ok names => return .ok (tickersOf timeframe names)
  | .error fault =>
    let fault := fault.message
    return .error (.data s!"failed to read directory {f.directory}: {fault}")

/-- The extent of a series; none without a table, or if it has no bars. The type of the prices is
needed to read them, since a table with a price that is none is an error. -/
def extent? (α : Type) [Arith α] (f : Folder) (ticker timeframe : String) :
    m (Except Failure (Option Extent)) := do
  if ← Files.isThere (f.path ticker timeframe) then
    let bars : Except Failure (List (Bar α)) ← f.bars ticker timeframe
    return bars.map Extent.ofBars?
  else return .ok none

end Folder

end BarScript
