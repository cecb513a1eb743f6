import BarScript.Command.Arguments
import BarScript.Config.Settings

/-!
# Commands

`run` evaluates a script over bars, `check` compiles it, and `info` lists what bars there are.
-/

namespace BarScript

inductive Command where
  | run (script : String) (config : Option String) (overrides : Overrides) (skipWarmup : Bool)
      (output : Option String)
  | check (script : String)
  | info (config directory ticker timeframe : Option String)
  deriving DecidableEq, Repr

namespace Command

/-- The commands by name. -/
inductive Name where
  | run | check | info
  deriving DecidableEq, Repr

namespace Name

def text : Name → String
  | run => "run"
  | check => "check"
  | info => "info"

def ofText? (s : String) : Option Name := [run, check, info].find? (·.text == s)

/-- The options of a command. -/
def flags : Name → List Flag
  | run => [.script, .config, .dataDir, .ticker, .timeframe, .bars, .noCache, .precision,
      .skipWarmup, .output, .help]
  | check => [.script, .help]
  | info => [.config, .dataDir, .ticker, .timeframe, .help]

end Name

/-- The script that has to be given. -/
def script (g : Given) : Except UsageError String :=
  match g.text? .script with
  | some path => .ok path
  | none => .error .missingOption

def overrides (g : Given) : Overrides :=
  ⟨g.text? .dataDir, g.text? .ticker, g.text? .timeframe, g.count? .bars, g.has .noCache,
    g.count? .precision⟩

/-- The command of a name and its options. -/
def ofGiven (name : Name) (g : Given) : Except UsageError Command :=
  match name with
  | .run => do
    return .run (← script g) (g.text? .config) (overrides g) (g.has .skipWarmup) (g.text? .output)
  | .check => do return .check (← script g)
  | .info => .ok (.info (g.text? .config) (g.text? .dataDir) (g.text? .ticker) (g.text? .timeframe))

/-- What is said to a request for help on some commands. -/
def helpOn : List String → UsageError
  | [] => .help
  | ["help"] => .help
  | [name] => if (Name.ofText? name).isSome then .help else .unknownCommand
  | _ => .unknownCommand

/-- What is said to arguments that start with no command. -/
def refuse (arg : String) (args : List String) : UsageError :=
  match ArgumentForm.of arg, args with
  | .stop, [] => .nothingGiven
  | .stop, name :: _ =>
    if (Name.ofText? name).isSome || name == "help" then .unknownArgument else .unknownCommand
  | .long "help" none, _ => .help
  | .long "help" (some _), _ => .valueOfFlag
  | .long .., _ => .unknownArgument
  | .letters ('h' :: _), _ => .help
  | .letters _, _ => .unknownArgument
  | .plain, _ => .unknownCommand

/-- The command that some arguments give. -/
def read : List String → Except UsageError Command
  | [] => .error .nothingGiven
  | "help" :: args => .error (helpOn args)
  | arg :: args =>
    match Name.ofText? arg with
    | some name => do ofGiven name (← scanOptions name.flags .start args)
    | none => .error (refuse arg args)

end Command

end BarScript
