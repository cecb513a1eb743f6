import BarScript.Output.Color
import BarScript.Run.Context
import BarScript.Script.Program

/-!
# Evaluation of a program at a bar

Numbers are also truth values: unavailable and zero are false. A comparison with an unavailable
number is false, division by zero is unavailable, and `and`, `or`, the ternary and `nz` evaluate
only what they need. A computed series is written when it is read. A program without a result gives
the values that it plotted.
-/

namespace BarScript

/-- A computation on the context of a run, which may fail. -/
abbrev EvalM (α : Type) := EStateM Failure (Context α)

variable {α : Type} [Arith α]

/-- The length that a number stands for: its integer part, or zero if it is not at least one. -/
def lengthOf (x : α) : Nat := if Arith.isFinite x && decide (1 ≤ x) then Arith.toCount x else 0

/-- The value of an operator on two values. -/
def BinaryOp.apply (op : BinaryOp) (a b : α) : α :=
  match op with
  | add => a + b
  | sub => a - b
  | mul => a * b
  | div => if b == 0 then Arith.nan else a / b
  | mod => if b == 0 then Arith.nan else Arith.rem a b
  | eq => Arith.ofBool (a == b)
  | ne => Arith.ofBool (!Arith.isNaN a && !Arith.isNaN b && !(a == b))
  | lt => Arith.ofBool (decide (a < b))
  | le => Arith.ofBool (decide (a ≤ b))
  | gt => Arith.ofBool (decide (b < a))
  | ge => Arith.ofBool (decide (b ≤ a))
  | and => Arith.ofBool (Arith.truth a && Arith.truth b)
  | or => Arith.ofBool (Arith.truth a || Arith.truth b)

/-- The value of an operator on a value. -/
def UnaryOp.apply (op : UnaryOp) (a : α) : α :=
  match op with
  | neg => -a
  | not => Arith.ofBool (!Arith.truth a)

/-- The offset that a number stands for; none if it is unavailable. -/
def historyOffset (bar : Nat) (x : α) : Except Failure (Option Nat) :=
  if Arith.isNaN x then .ok none
  else if x < 0 then
    let offset := Arith.text x
    .error (.script bar s!"history offset must not be negative, got {offset}")
  else .ok (some (Arith.toCount x))

/-- A series as it stands in a context. -/
def Source.view (s : Source) (ctx : Context α) : View α :=
  match s with
  | price p => ctx.snapshot.price p
  | slot bank id => (ctx.stores.bank bank).view id
  | computed id _ => ctx.stores.computed.view id

/-- The series of an argument, if it is one. -/
def Bound.view? (b : Bound) (ctx : Context α) : Option (View α) :=
  match b with
  | series s => some (s.view ctx)
  | _ => none

/-- The values of a call whose number arguments have been evaluated. -/
def StudyCallOf.perform (c : StudyCall) (nums : List α) (ctx : Context α) :
    List α × Technical α :=
  let t := ctx.technical
  let series? (i : Nat) : Option (View α) := c.args[i]?.bind (·.view? ctx)
  let series (i : Nat) : View α := (series? i).getD .empty
  let num (i : Nat) : α := nums.getD i Arith.nan
  let len (i : Nat) : Nat := lengthOf (num i)
  let one (r : α × Technical α) : List α × Technical α := ([r.1], r.2)
  let flag (r : Bool × Technical α) : List α × Technical α := ([Arith.ofBool r.1], r.2)
  match c.study with
  | .sma => one (t.sma (series 0) (len 1) c.handle)
  | .ema => one (t.ema (series 0) (len 1) c.handle)
  | .rma => one (t.rma (series 0) (len 1) c.handle)
  | .rsi => one (t.rsi (series 0) (len 1) c.handle)
  | .atr => one (t.atr (len 0) c.handle)
  | .wma => one (t.wma (series 0) (len 1))
  | .hma => one (t.hma (series 0) (len 1))
  | .vwma => one (t.vwma (series 0) (len 1))
  | .dema => one (t.dema (series 0) (len 1))
  | .tema => one (t.tema (series 0) (len 1))
  | .swma => one (t.swma (series 0))
  | .change => one (t.change (series 0) (len 1))
  | .mom => one (t.mom (series 0) (len 1))
  | .roc => one (t.roc (series 0) (len 1))
  | .stdev => one (t.stdev (series 0) (len 1) (Arith.truth (num 2)))
  | .variance => one (t.variance (series 0) (len 1) (Arith.truth (num 2)))
  | .dev => one (t.dev (series 0) (len 1))
  | .highest => one (t.highest (series 0) (len 1))
  | .lowest => one (t.lowest (series 0) (len 1))
  | .median => one (t.median (series 0) (len 1))
  | .linreg =>
    let offset : Int :=
      if Arith.isFinite (num 2) then Arith.toIntClamped (-(twoTo 63 : Int)) (twoTo 63 - 1) (num 2) else 0
    one (t.linreg (series 0) (len 1) offset)
  | .supertrend =>
    let (r, t) := t.supertrend (num 0) (len 1)
    ([r.1, r.2], t)
  | .vwap =>
    if c.arity = 3 then
      let (r, t) := t.vwapBands (series 0) (series? 1) (num 2)
      ([r.1, r.2.1, r.2.2], t)
    else one (t.vwap (series 0) (series? 1))
  | .tr => one (t.trueRange (Arith.truth (num 0)))
  | .crossover => flag (t.crossover (series 0) (series 1))
  | .crossunder => flag (t.crossunder (series 0) (series 1))

mutual

/-- The value of an expression. -/
def Node.eval : Node → EvalM α α
  | .number l => pure l.value
  | .flag b => pure (Arith.ofBool b)
  | .na => pure Arith.nan
  | .read source offset => do
    match ← Node.evalOffset offset with
    | none => pure Arith.nan
    | some k => do
      source.prepare
      return (source.view (← get)).ago k
  | .clock c offset => do
    match ← Node.evalOffset offset with
    | none => pure Arith.nan
    | some k => return (((← get).snapshot.clock c).ago? k).elim Arith.nan Arith.ofInt
  | .barIndex => return Arith.ofCount (← get).bar
  | .unary op operand => return op.apply (← operand.eval)
  | .binary op left right => do
    let a ← left.eval
    match op with
    | .and => if Arith.truth a then return Arith.ofBool (Arith.truth (← right.eval)) else return 0
    | .or => if Arith.truth a then return 1 else return Arith.ofBool (Arith.truth (← right.eval))
    | op => return op.apply a (← right.eval)
  | .ternary cond yes no => do
    if Arith.truth (← cond.eval) then yes.eval else no.eval
  | .study ⟨study, args, handle⟩ => do
    let nums ← Bound.evalAll args
    let ctx ← get
    let (values, t) := StudyCallOf.perform ⟨study, args, handle⟩ nums ctx
    set (ctx.absorb t)
    return values.headD Arith.nan
  | .math f args => return f.apply (← Node.evalAll args)
  | .isNa operand => return Arith.ofBool (Arith.isNaN (← operand.eval))
  | .nz operand replacement => do
    let v ← operand.eval
    if Arith.isNaN v then replacement.eval else return v

/-- The offset of a reading; none if it is unavailable. -/
def Node.evalOffset : Option Node → EvalM α (Option Nat)
  | none => pure (some 0)
  | some n => do
    let v ← n.eval
    match historyOffset (← get).bar v with
    | .ok k => return k
    | .error failure => throw failure

/-- Writes the current value of a computed series. -/
def Source.prepare : Source → EvalM α Unit
  | .computed id value => do
    let v ← value.eval
    modify fun ctx => { ctx with stores := ctx.stores.set .computed id v }
  | .price _ => pure ()
  | .slot _ _ => pure ()

/-- The numbers of the arguments of an indicator, with an unavailable one for every series. -/
def Bound.evalAll : List Bound → EvalM α (List α)
  | [] => pure []
  | b :: bs => do
    let v ← b.evalNumber
    return v :: (← Bound.evalAll bs)

/-- Writes a series argument, or evaluates a number argument. -/
def Bound.evalNumber : Bound → EvalM α α
  | .series s => do
    s.prepare
    return Arith.nan
  | .number n => n.eval
  | .absent => pure Arith.nan

/-- The values of some expressions, in their order. -/
def Node.evalAll : List Node → EvalM α (List α)
  | [] => pure []
  | n :: ns => do
    let v ← n.eval
    return v :: (← Node.evalAll ns)

end

/-- The values of a call. -/
def StudyCallOf.eval (c : StudyCall) : EvalM α (List α) := do
  let nums ← Bound.evalAll c.args
  let ctx ← get
  let (values, t) := c.perform nums ctx
  set (ctx.absorb t)
  return values

/-- The text of an option value where a color is needed. -/
def OptionValue.colorText : OptionValue α → String
  | text s => s
  | number x => Arith.text x
  | flag b => if b then "true" else "false"

/-- The value of an option. -/
def OptionNode.eval : OptionNode → EvalM α (OptionValue α)
  | text s => pure (.text s)
  | flag b => pure (.flag b)
  | number n => return .number (← n.eval)
  | rgb channels => do
    let v ← Node.evalAll (channels.take 4)
    let channel (i : Nat) : α := v.getD i Arith.nan
    return .text (Color.rgb (channel 0) (channel 1) (channel 2) (v[3]?.filter Arith.truth))
  | newColor base alpha => do
    let base ← base.eval
    let alpha ← match alpha with
      | some n => do pure (some (← n.eval))
      | none => pure none
    return .text (Color.withAlpha base.colorText (alpha.filter Arith.truth))

/-- The values of some options; of two with one name the later one counts. -/
def evalOptions : OptionNodes → Options α → EvalM α (Options α)
  | [], options => pure options
  | (key, n) :: rest, options => do
    let v ← n.eval
    evalOptions rest (options.insert key v)

/-- Changes the outputs at the current time. -/
def drawAt (f : Outputs α → Int → Outputs α) : EvalM α Unit :=
  modify fun ctx => { ctx with outputs := f ctx.outputs ctx.now }

/-- What has been plotted at a bar: titles and values in the order of the plots. -/
abbrev Plotted (α : Type) := List (String × Value α)

/-- Draws. A plot adds to what has been plotted. -/
def Drawing.perform (d : Drawing) (plotted : Plotted α) : EvalM α (Plotted α) :=
  match d with
  | plot value title options char => do
    let v ← value.eval
    let options ← evalOptions options ∅
    drawAt fun o now =>
      if char then o.plotChar now v title options else o.plot now v title options
    return plotted ++ [(title, .number v)]
  | candle opening high low close title options bar => do
    let opening ← opening.eval
    let high ← high.eval
    let low ← low.eval
    let close ← close.eval
    let options ← evalOptions options ∅
    let candle : Candle α := ⟨opening, high, low, close⟩
    drawAt fun o now =>
      if bar then o.plotBar now candle title options else o.plotCandle now candle title options
    return plotted
  | fill plot1 plot2 options => do
    let options ← evalOptions options ∅
    drawAt fun o _ => o.fill plot1 plot2 options
    return plotted
  | hline price title options => do
    let price ← price.eval
    let options ← evalOptions options ∅
    drawAt fun o _ => o.hline price title options
    return plotted
  | indicator title shortTitle overlay => do
    drawAt fun o _ => o.indicator title shortTitle overlay
    return plotted

/-- Sets a slot. -/
def setSlot (bank : Bank) (id : Nat) (x : α) : EvalM α Unit :=
  modify fun ctx => { ctx with stores := ctx.stores.set bank id x }

/-- Sets bindings to values, as many as there are of both. -/
def setBindings (targets : List Nat) (values : List α) : EvalM α Unit :=
  modify fun ctx => { ctx with
    stores := (targets.zip values).foldl (fun s t => s.set .bindings t.1 t.2) ctx.stores }

/-- Executes an instruction. -/
def Op.exec (op : Op) (plotted : Plotted α) : EvalM α (Plotted α) :=
  match op with
  | set bank id value => do
    let v ← value.eval
    setSlot bank id v
    return plotted
  | init bank id value => do
    if (((← get).stores.bank bank).series id).isEmpty then
      let v ← value.eval
      setSlot bank id v
    return plotted
  | unpack call targets => do
    let values ← call.eval
    setBindings targets values
    return plotted
  | eval n => do
    let _ ← n.eval
    return plotted
  | draw d => d.perform plotted

/-- Executes instructions one after the other. -/
def Op.execAll : List Op → Plotted α → EvalM α (Plotted α)
  | [], plotted => pure plotted
  | op :: ops, plotted => do
    let plotted ← op.exec plotted
    execAll ops plotted

/-- The values of named expressions, in their order. -/
def evalFields : List (String × Node) → EvalM α (List (String × Value α))
  | [] => pure []
  | (key, n) :: rest => do
    let v ← n.eval
    return (key, .number v) :: (← evalFields rest)

/-- What a program gives at a bar at which it has plotted `plotted`. -/
def Program.output (p : Program) (plotted : Plotted α) : EvalM α (StepOutput α) :=
  match p.result with
  | some (.single n) => return .scalar (.number (← n.eval))
  | some (.named fields) => return .named (← evalFields fields)
  | none => return if plotted.isEmpty then .scalar (.number Arith.nan) else .named plotted

/-- The step of a program. -/
def Program.step (p : Program) : EvalM α (StepOutput α) := do
  let plotted ← Op.execAll p.ops []
  p.output plotted

end BarScript
