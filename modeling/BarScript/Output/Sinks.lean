import BarScript.Arith
import BarScript.Assoc

/-!
# Output sinks

What a script draws: plots, candles, bars, fills between plots, and horizontal lines. Sinks only
grow; every point carries the opening time of its bar. A sink is created by its first point and
keeps the pane and the options of that point. Once the script has a title, the points of plots,
candles and bars carry it as the option `group`.
-/

namespace BarScript

inductive OptionValue (α : Type) where
  | number (x : α)
  | text (s : String)
  | flag (b : Bool)
  deriving DecidableEq, Repr

/-- Options of a point or of a sink, by name. -/
abbrev Options (α : Type) := Assoc String (OptionValue α)

/-- A value at a time. -/
structure Point (α : Type) where
  time : Int
  value : α
  options : Options α
  deriving DecidableEq, Repr

/-- Four prices. -/
structure Candle (α : Type) where
  opening : α
  high : α
  low : α
  close : α
  deriving DecidableEq, Repr

/-- Four prices at a time. -/
structure CandlePoint (α : Type) where
  time : Int
  candle : Candle α
  pane : Nat
  options : Options α
  deriving DecidableEq, Repr

/-- The points `ρ` drawn under one title, with the options and the pane of the first of them. -/
structure Sink (α ρ : Type) where
  title : String
  data : Array ρ
  options : Options α
  pane : Nat
  deriving DecidableEq

/-- An area between two plots, given by their titles. -/
structure Fill (α : Type) where
  plot1 : String
  plot2 : String
  options : Options α
  deriving DecidableEq, Repr

/-- A horizontal line. -/
structure Level (α : Type) where
  title : String
  price : α
  options : Options α
  pane : Nat
  deriving DecidableEq, Repr

structure Outputs (α : Type) where
  /-- The title of the script, once it has one. -/
  title : Option String
  /-- `0` draws over the prices, `1` in a pane of its own. -/
  pane : Nat
  plots : List (Sink α (Point α))
  candles : List (Sink α (CandlePoint α))
  bars : List (Sink α (CandlePoint α))
  fills : List (Fill α)
  levels : List (Level α)
  deriving DecidableEq

/-- Appends a point to the sink of a title, which is created if it is new. -/
def Sink.record {α ρ : Type} (title : String) (options : Options α) (pane : Nat) (point : ρ) :
    List (Sink α ρ) → List (Sink α ρ)
  | [] => [⟨title, #[point], options, pane⟩]
  | s :: rest =>
    if s.title = title then { s with data := s.data.push point } :: rest
    else s :: record title options pane point rest

namespace Outputs

variable {α : Type}

def empty : Outputs α := ⟨none, 0, [], [], [], [], []⟩

/-- Nothing has been drawn. -/
def isEmpty (o : Outputs α) : Bool :=
  o.plots.isEmpty && o.candles.isEmpty && o.bars.isEmpty && o.fills.isEmpty && o.levels.isEmpty

def plot? (o : Outputs α) (title : String) : Option (Sink α (Point α)) :=
  o.plots.find? (·.title == title)

def candle? (o : Outputs α) (title : String) : Option (Sink α (CandlePoint α)) :=
  o.candles.find? (·.title == title)

def bar? (o : Outputs α) (title : String) : Option (Sink α (CandlePoint α)) :=
  o.bars.find? (·.title == title)

def level? (o : Outputs α) (title : String) : Option (Level α) :=
  o.levels.find? (·.title == title)

/-- The title of a script that names none. -/
def defaultTitle : String := "pinerun script"

/-- Names the script; `overlay` chooses the pane of what is drawn from now on. -/
def indicator (o : Outputs α) (title shortTitle : Option String) (overlay : Option Bool) :
    Outputs α :=
  { o with
    title := some ((title <|> shortTitle).getD defaultTitle)
    pane := match overlay with
      | some true => 0
      | some false => 1
      | none => o.pane }

/-- Options with the title of the script as their group. -/
def grouped (o : Outputs α) (options : Options α) : Options α :=
  match o.title with
  | some title => options.insert "group" (.text title)
  | none => options

/-- Draws a value. -/
def plot (o : Outputs α) (time : Int) (value : α) (title : String) (options : Options α) :
    Outputs α :=
  let options := o.grouped options
  { o with plots := Sink.record title options o.pane ⟨time, value, options⟩ o.plots }

/-- Draws a value as a character. The point has a style of its own and no group. -/
def plotChar (o : Outputs α) (time : Int) (value : α) (title : String) (options : Options α) :
    Outputs α :=
  let marked := options.insert "style" (.text "char")
  { o with plots := Sink.record title options o.pane ⟨time, value, marked⟩ o.plots }

/-- Draws four prices as a candle. -/
def plotCandle (o : Outputs α) (time : Int) (candle : Candle α) (title : String)
    (options : Options α) : Outputs α :=
  let options := o.grouped options
  { o with candles := Sink.record title options o.pane ⟨time, candle, o.pane, options⟩ o.candles }

/-- Draws four prices as a bar. -/
def plotBar (o : Outputs α) (time : Int) (candle : Candle α) (title : String)
    (options : Options α) : Outputs α :=
  let options := o.grouped options
  { o with bars := Sink.record title options o.pane ⟨time, candle, o.pane, options⟩ o.bars }

/-- Fills the area between two plots; only the first fill of `plot1` counts. -/
def fill (o : Outputs α) (plot1 plot2 : String) (options : Options α) : Outputs α :=
  if o.fills.any (·.plot1 == plot1) then o
  else { o with fills := o.fills ++ [⟨plot1, plot2, options⟩] }

/-- Sets the level of a title; a level that is there keeps its pane. -/
def setLevel (pane : Nat) (price : α) (title : String) (options : Options α) :
    List (Level α) → List (Level α)
  | [] => [⟨title, price, options, pane⟩]
  | l :: rest =>
    if l.title = title then { l with price := price, options := options } :: rest
    else l :: setLevel pane price title options rest

/-- Draws a horizontal line. -/
def hline (o : Outputs α) (price : α) (title : String) (options : Options α) : Outputs α :=
  { o with levels := setLevel o.pane price title options o.levels }

end Outputs

end BarScript
