import BarScript.Command.Line
import BarScript.Command.Transcript
import BarScript.Data.Folder
import BarScript.Run.Runner

/-!
# Executing commands

What every command does with the files, prints and tells. A command that fails tells why, and its
exit code is that of the failure.
-/

namespace BarScript.Command

open CommandM

/-! ## Tables of results -/

section

variable {α : Type} [Arith α]

/-- An entry of a result; an unavailable one is empty. -/
def entryText (x : α) : String := if Arith.isNaN x then "" else Arith.text x

/-- The columns of results with their names. -/
def namedColumns : Columns α → List (String × Array α)
  | .none => []
  | .scalar values => [("value", values)]
  | .named columns => columns

/-- The record of a bar and the entries of a row. -/
def rowFields (columns : List (String × Array α)) (b : Bar α) (row : Nat) : List String :=
  toString b.openTime :: columns.map fun c => (c.2[row]?.map entryText).getD ""

/-- The results of a run: the opening time of every bar and a column per result, without the first
`skip` rows. -/
def resultTable (ctx : Context α) (skip : Nat) : String :=
  let columns := namedColumns ctx.results.columns
  let bars := Request.lastOnes ctx.results.rows ctx.market.bars.toList
  let rows := (bars.zipIdx.drop skip).map fun (b, row) => rowFields columns b row
  String.join ((("time" :: columns.map (·.1)) :: rows).map Csv.line)

/-- How many of the first rows belong to bars with too short a past for the longest lookback. The
bars before the first evaluated one are past as well. -/
def warmupRows (ctx : Context α) : Nat :=
  ctx.maxPeriod.getD 0 - 1 - (ctx.market.size - ctx.results.rows)

end

/-! ## The commands -/

variable {m : Type → Type} [Monad m] [Files m]

/-- The configuration of a file; without a file it is empty. -/
def loadConfig : Option String → CommandM m Ini
  | none => return .empty
  | some path => do
    tell s!"Loading config from {path}"
    let failed (reason : String) : CommandM m Ini :=
      throw (.configParse path s!"couldn't read {path}: {reason}")
    match ← onFiles (Files.readText path) with
    | .error fault => failed fault.message
    | .ok text =>
      match Ini.read text with
      | .error e => failed e.message
      | .ok ini => return ini

/-- The text of a script. -/
def readScript (path : String) : CommandM m String := do
  match ← onFiles (Files.readText path) with
  | .ok text => return text
  | .error fault =>
    let fault := fault.message
    throw (.io s!"failed to read {path}: {fault}")

/-- Goes on with a result; shows the place in the source that a failure points to. -/
def orShow {β : Type} (source : String) : Except Failure β → CommandM m β
  | .ok x => return x
  | .error failure => do
    match failure.diagnostic? with
    | some d => tell (d.render source)
    | none => pure ()
    throw failure

/-- Writes results to a file, or prints them. -/
def deliver (table : String) : Option String → CommandM m Unit
  | none => print table
  | some path => do
    match ← onFiles (Files.writeText path table) with
    | .ok () => tell s!"Results written to {path}"
    | .error fault => throw (.io fault.message)

/-- Evaluates a script over the bars of a folder. -/
def executeRun (α : Type) [Arith α] (script : String) (config : Option String)
    (overrides : Overrides) (skipWarmup : Bool) (output : Option String) : CommandM m Unit := do
  let ini ← loadConfig config
  let settings ← ofExcept (Settings.build ini overrides)
  let source ← readScript script
  let request := settings.request
  tell s!"Loading {request.ticker} {request.timeframe} from {settings.directory}"
  let folder : Folder := ⟨settings.directory⟩
  let bars : List (Bar α) ← ofExcept (← onFiles (folder.fetch request))
  let runner ← ofExcept (Runner.ofRequest request bars)
  let runner := { runner with useCache := settings.useCache, precision := settings.precision }
  let ctx ← orShow source (runner.run (some source) settings.bars).1
  let rows := ctx.results.rows
  let total := ctx.market.size
  let longest := (ctx.maxPeriod.map toString).getD "none"
  tell s!"Evaluated {rows} of {total} bars (max period {longest})"
  deliver (resultTable ctx (if skipWarmup then warmupRows ctx else 0)) output

/-- Compiles a script and prints what it needs. -/
def executeCheck (script : String) : CommandM m Unit := do
  let source ← readScript script
  let program ← orShow source (compile source)
  let needs := program.summary
  printLine s!"statements:  {needs.statements}"
  printLine s!"variables:   {needs.declared}"
  printLine s!"params:      {needs.params}"
  printLine s!"cache sites: {needs.cacheSites}"
  tell s!"{script} compiles"

/-- Prints the extent of a series. -/
def describe (α : Type) [Arith α] (folder : Folder) (timeframe ticker : String) :
    CommandM m Unit := do
  match ← ofExcept (← onFiles (folder.extent? α ticker timeframe)) with
  | some e =>
    let first := (Instant.ofMillis e.first).minuteText
    let last := (Instant.ofMillis e.last).minuteText
    printLine s!"{ticker}_{timeframe}: {e.count} bars, {first} to {last}"
  | none => tell s!"{ticker}_{timeframe}: no data found"

/-- Prints the extent of every series in a list. -/
def describeAll (α : Type) [Arith α] (folder : Folder) (timeframe : String) :
    List String → CommandM m Unit
  | [] => return
  | ticker :: tickers => do
    describe α folder timeframe ticker
    describeAll α folder timeframe tickers

/-- Prints the extents of the series of a timeframe, or that of one of them. -/
def executeInfo (α : Type) [Arith α] (config directory ticker timeframe : Option String) :
    CommandM m Unit := do
  let ini ← loadConfig config
  let folder : Folder := ⟨(directory <|> ini.find? "data" "dir").getD "."⟩
  let timeframe ← match timeframe <|> ini.find? "data" "timeframe" with
    | some t => pure t
    | none => throw (.configMissing "data" "timeframe")
  let tickers ← match ticker with
    | some t => pure [t]
    | none => ofExcept (← onFiles (folder.tickers timeframe))
  if tickers.isEmpty then tell s!"No tickers found for timeframe {timeframe}"
  describeAll α folder timeframe tickers

/-- Executes a command. -/
def execute (α : Type) [Arith α] : Command → CommandM m Unit
  | .run script config overrides skipWarmup output =>
    executeRun α script config overrides skipWarmup output
  | .check script => executeCheck script
  | .info config directory ticker timeframe => executeInfo α config directory ticker timeframe

/-- Executes a command from the start: its exit code, and what it has said. -/
def perform (α : Type) [Arith α] (c : Command) : m (Nat × Transcript) := do
  let (outcome, t) ← ((execute α c : CommandM m Unit).run).run ⟨"", ""⟩
  match outcome with
  | .ok () => return (0, t)
  | .error failure =>
    let reason := failure.message
    return (failure.exitCode, { t with told := t.told ++ s!"error: {reason}\n" })

end BarScript.Command
