import BarScript.Script.Resolve

/-!
# Resolution of drawings

The calls that draw take numbers, titles and options. Titles are texts that stand in the script.
Options are texts, truth values, numbers and colors; beside the named ones a drawing takes any
further option by name.
-/

namespace BarScript.Resolve

/-- Positional arguments, as many as `count` admits. -/
def positional (c : Call) (count : ArgCount) : ResolveM (List Node) := do
  checkPositional c count
  each (fun a => expr a.value) c.args

/-- The value of an option. -/
def option (e : Expr) : ResolveM OptionNode :=
  match e with
  | .text s => return .text s
  | .flag b => return .flag b
  | .name n position =>
    if n.startsWith "color." then
      match Color.named? (String.ofList (n.toList.drop "color.".length)) with
      | some color => return .text color
      | none => fail position (.unknownColor n)
    else return .number (← expr e)
  | .call c => do
    if c.name = "color.rgb" then return .rgb (← positional c ⟨3, some 4⟩)
    else if c.name = "color.new" then
      let bound ← bind c.attach ["color", "transp"] false
      match bound.slot 0 with
      | none => fail c.position (.missingArgument c.name "color")
      | some base =>
        have := sizeOf_arg_lt base.2
        let base ← option base.1
        match bound.slot 1 with
        | some alpha => return .newColor base (some (← expr alpha.1))
        | none => return .newColor base none
    else return .number (← expr e)
  | _ => return .number (← expr e)
termination_by sizeOf e

/-- Options by name, in their order. -/
def options (xs : List (String × Expr)) : ResolveM OptionNodes :=
  each (fun x => do return (x.1, ← option x.2)) xs

/-- The arguments from parameter `first` on that are given, and then the further ones. -/
def optionArgs (params : List String) (b : BoundArgs Expr) (first : Nat) : List (String × Expr) :=
  ((params.zip b.slots).drop first).filterMap (fun (name, slot) => slot.map (name, ·)) ++ b.extra

/-- An argument that has to be there. -/
def required (c : Call) (params : List String) (b : BoundArgs Expr) (i : Nat) : ResolveM Expr :=
  match b.slot i with
  | some e => pure e
  | none => fail c.position (.missingArgument c.name (params.getD i ""))

/-- The value of an argument that has to be there. -/
def requiredValue (c : Call) (params : List String) (b : BoundArgs Expr) (i : Nat) :
    ResolveM Node := do
  let e ← required c params b i
  expr e

/-- A text that stands in the script. -/
def text (what : String) : Expr → ResolveM String
  | .text s => pure s
  | e => fail e.position (.notText what)

/-- A title, or a default. -/
def title (b : BoundArgs Expr) (i : Nat) (default : String) : ResolveM String :=
  match b.slot i with
  | some e => text "title" e
  | none => pure default

/-- A text, if it is given. -/
def text? (b : BoundArgs Expr) (i : Nat) (what : String) : ResolveM (Option String) :=
  match b.slot i with
  | some e => do return some (← text what e)
  | none => pure none

/-- The title of a plot: a text, or a name that a plot has been given. -/
def plotTitle : Expr → ResolveM String
  | .text s => pure s
  | .name n position => do
    match (← get).find? n with
    | some (.plot title) => return title
    | _ => fail position (.notPlot n)
  | e => fail e.position .fillNeedsPlot

/-- A truth value that stands in the script, if it is given. -/
def overlay? (b : BoundArgs Expr) (i : Nat) : ResolveM (Option Bool) :=
  match b.slot i with
  | some (.flag f) => pure (some f)
  | some e => fail e.position .overlayNotFlag
  | none => pure none

/-- A plot of values, as characters if `char`. Its title comes with it. -/
def plot (c : Call) (char : Bool) : ResolveM (Drawing × String) := do
  let params :=
    if char then ["series", "title", "char", "location", "color"]
    else ["series", "title", "color", "linewidth", "style"]
  let b ← bind c params true
  let value ← requiredValue c params b 0
  let title ← title b 1 "Plot"
  let options ← options (optionArgs params b 2)
  return (.plot value title options char, title)

/-- A plot of four prices, as bars if `bar`. -/
def candle (c : Call) (bar : Bool) : ResolveM Drawing := do
  let params := ["open", "high", "low", "close", "title", "color"]
  let b ← bind c params true
  let opening ← requiredValue c params b 0
  let high ← requiredValue c params b 1
  let low ← requiredValue c params b 2
  let close ← requiredValue c params b 3
  let title ← title b 4 (if bar then "Bars" else "Candles")
  let options ← options (optionArgs params b 5)
  return .candle opening high low close title options bar

def fill (c : Call) : ResolveM Drawing := do
  let params := ["plot1", "plot2", "color"]
  let b ← bind c params true
  let plot1 ← plotTitle (← required c params b 0)
  let plot2 ← plotTitle (← required c params b 1)
  let options ← options (optionArgs params b 2)
  return .fill plot1 plot2 options

def hline (c : Call) : ResolveM Drawing := do
  let params := ["price", "title", "color", "linestyle", "linewidth"]
  let b ← bind c params true
  let price ← requiredValue c params b 0
  let title ← title b 1 "HLine"
  let options ← options (optionArgs params b 2)
  return .hline price title options

def indicator (c : Call) : ResolveM Drawing := do
  let b ← bind c ["title", "shorttitle", "overlay"] false
  let title ← text? b 0 "title"
  let shortTitle ← text? b 1 "shorttitle"
  let overlay ← overlay? b 2
  return .indicator title shortTitle overlay

/-- A call that draws; none if the function does not. -/
def drawing? (c : Call) : Option (ResolveM Drawing) :=
  match c.name with
  | "plot" => some do return (← plot c false).1
  | "plotchar" => some do return (← plot c true).1
  | "plotcandle" => some (candle c false)
  | "plotbar" => some (candle c true)
  | "fill" => some (fill c)
  | "hline" => some (hline c)
  | "indicator" => some (indicator c)
  | _ => none

end BarScript.Resolve
