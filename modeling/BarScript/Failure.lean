import BarScript.Diagnostic

/-!
# Failures

Everything that can stop a command, a run or the loading of data, with the text that reports it and
the exit code of the command line.
-/

namespace BarScript

inductive Failure where
  /-- A run was asked for, and no script has been compiled. -/
  | noScript
  /-- A bar cannot be appended to a market. -/
  | invalidBar (reason : String)
  /-- The source is not a script. -/
  | parse (diagnostic : Diagnostic)
  /-- The script refers to something that is not there, or uses it wrongly. -/
  | compile (diagnostic : Diagnostic)
  /-- The step of a bar failed. -/
  | script (bar : Nat) (reason : String)
  /-- A step returned a single value after named ones, or the other way round. -/
  | resultShape (bar : Nat)
  | data (reason : String)
  | noData (ticker timeframe : String)
  | configParse (file reason : String)
  | configMissing (group key : String)
  | configInvalid (group key reason : String)
  | io (reason : String)
  deriving DecidableEq, Repr

namespace Failure

/-- The text that reports a failure. -/
def message : Failure → String
  | noScript => "no script supplied and none previously compiled"
  | invalidBar reason => s!"invalid bar: {reason}"
  | parse d => d.headline
  | compile d => s!"compile error at position {d.position}: {d.message}"
  | script bar reason => s!"script failed at bar {bar}: {reason}"
  | resultShape bar =>
    s!"result shape changed at bar {bar}: step output switched between scalar and named values"
  | data reason => s!"data source error: {reason}"
  | noData ticker timeframe => s!"no data for {ticker} ({timeframe})"
  | configParse file reason => s!"config parse error in {file}: {reason}"
  | configMissing group key => s!"missing config key [{group}] {key}"
  | configInvalid group key reason => s!"invalid config value [{group}] {key}: {reason}"
  | io reason => reason

/-- The exit code of a command that ends with a failure. -/
def exitCode : Failure → Nat
  | io _ => 1
  | configParse .. | configMissing .. | configInvalid .. | noScript => 2
  | data _ | noData .. | invalidBar _ => 3
  | parse _ | compile _ => 4
  | script .. | resultShape _ => 5

/-- The diagnostic of a failure that points into the source. -/
def diagnostic? : Failure → Option Diagnostic
  | parse d | compile d => some d
  | _ => none

end Failure

end BarScript
