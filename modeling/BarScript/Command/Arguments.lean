import BarScript.Decimal.Reading

/-!
# Command-line arguments

The arguments of a command are options: a long name behind two hyphens or a letter behind one, and
for most options a value, which is attached to the name or is the next argument. An option may be
given once. Faults are reported in the order of the arguments. A value that is an argument of its own
is looked at when the next option comes or the arguments end, so an argument that is unknown is
reported before a bad value right in front of it.
-/

namespace BarScript

/-- The options of all commands. -/
inductive Flag where
  | help | script | config | dataDir | ticker | timeframe | bars | noCache | precision
  | skipWarmup | output
  deriving DecidableEq, Repr

/-- What the value of an option is. -/
inductive ValueKind where
  | path
  | text
  /-- A count of 64 bits. -/
  | count
  /-- A count of 32 bits. -/
  | digits
  deriving DecidableEq, Repr

namespace Flag

def long : Flag → String
  | help => "help"
  | script => "script"
  | config => "config"
  | dataDir => "data-dir"
  | ticker => "ticker"
  | timeframe => "timeframe"
  | bars => "bars"
  | noCache => "no-cache"
  | precision => "precision"
  | skipWarmup => "skip-warmup"
  | output => "output"

def letter? : Flag → Option Char
  | help => some 'h'
  | script => some 's'
  | config => some 'c'
  | ticker => some 't'
  | bars => some 'b'
  | output => some 'o'
  | dataDir | timeframe | noCache | precision | skipWarmup => none

/-- The kind of value an option has, if it has one. -/
def kind? : Flag → Option ValueKind
  | script | config | dataDir | output => some .path
  | ticker | timeframe => some .text
  | bars => some .count
  | precision => some .digits
  | help | noCache | skipWarmup => none

end Flag

/-- Why arguments are not a command. The first two ask for help. -/
inductive UsageError where
  | help
  | nothingGiven
  | unknownCommand
  | missingOption
  | badValue
  | unknownArgument
  | repeatedOption
  | missingValue
  | valueOfFlag
  deriving DecidableEq, Repr

namespace UsageError

def exitCode : UsageError → Nat
  | help => 0
  | _ => 2

def message : UsageError → String
  | help | nothingGiven => "usage: barscript (run | check | info) [options]"
  | unknownCommand => "unknown command"
  | missingOption => "a required option is missing"
  | badValue => "the value of an option is invalid"
  | unknownArgument => "unknown argument"
  | repeatedOption => "an option is given more than once"
  | missingValue => "an option has no value"
  | valueOfFlag => "a value is given to an option that has none"

end UsageError

/-- The value of an option. -/
inductive OptionArg where
  | present
  | text (s : String)
  | count (n : Nat)
  deriving DecidableEq, Repr

namespace ValueKind

/-- The value of a text. -/
def read (k : ValueKind) (s : String) : Except UsageError OptionArg :=
  match k with
  | path => if s.isEmpty then .error .missingValue else .ok (.text s)
  | text => .ok (.text s)
  | count =>
    match readCount? (twoTo 64) s with
    | some n => .ok (.count n)
    | none => .error .badValue
  | digits =>
    match readInteger? s with
    | some n => if 0 ≤ n ∧ n < (twoTo 32 : Int) then .ok (.count n.toNat) else .error .badValue
    | none => .error .badValue

end ValueKind

/-- The options given so far. -/
abbrev Given := List (Flag × OptionArg)

namespace Given

def find? (g : Given) (f : Flag) : Option OptionArg := (List.find? (·.1 == f) g).map (·.2)

def has (g : Given) (f : Flag) : Bool := (g.find? f).isSome

def text? (g : Given) (f : Flag) : Option String :=
  match g.find? f with
  | some (.text s) => some s
  | _ => none

def count? (g : Given) (f : Flag) : Option Nat :=
  match g.find? f with
  | some (.count n) => some n
  | _ => none

/-- Takes an option with the text of its value, if there is one. -/
def add (g : Given) (f : Flag) (value : Option String) : Except UsageError Given :=
  match f, f.kind?, value with
  | .help, _, _ => .error .help
  | _, some _, none => .error .missingValue
  | _, kind, value =>
    if g.has f then .error .repeatedOption
    else
      match kind, value with
      | some k, some s => (k.read s).map fun v => g ++ [(f, v)]
      | _, _ => .ok (g ++ [(f, .present)])

end Given

/-- Where the reading of arguments is: the options taken, and one that is not taken yet, with its
value if that has come. -/
structure Scan where
  given : Given
  pending : Option (Flag × Option String)
  deriving DecidableEq

namespace Scan

def start : Scan := ⟨[], none⟩

/-- Takes the pending option. -/
def settle (s : Scan) : Except UsageError Given :=
  match s.pending with
  | some (f, value) => s.given.add f value
  | none => .ok s.given

/-- Takes the pending option and one that is complete. -/
def take (s : Scan) (f : Flag) (value : Option String) : Except UsageError Scan := do
  let g ← s.settle
  return ⟨← g.add f value, none⟩

/-- Takes the pending option; a new one waits for its value. -/
def await (s : Scan) (f : Flag) : Except UsageError Scan := do
  return ⟨← s.settle, some (f, none)⟩

/-- An option by its long name, with the value attached to it. -/
def longOption (flags : List Flag) (s : Scan) (name : String) (value : Option String) :
    Except UsageError Scan :=
  match flags.find? (·.long == name) with
  | none => .error .unknownArgument
  | some f =>
    match f.kind?, value with
    | none, some _ => .error .valueOfFlag
    | some _, none => s.await f
    | _, _ => s.take f value

/-- Options by their letters; what follows the letter of an option with a value is the value, and an
equals sign may stand between. -/
def letterOptions (flags : List Flag) (s : Scan) : List Char → Except UsageError Scan
  | [] => .ok s
  | c :: cs =>
    match flags.find? (·.letter? == some c) with
    | none => .error .unknownArgument
    | some f =>
      match f.kind?, cs with
      | none, _ => do letterOptions flags (← s.take f none) cs
      | some _, [] => s.await f
      | some _, '=' :: value => s.take f (some (String.ofList value))
      | some _, value => s.take f (some (String.ofList value))

/-- An argument that is not an option: the value that is waited for. -/
def value (s : Scan) (text : String) : Except UsageError Scan :=
  match s.pending with
  | some (f, none) => .ok { s with pending := some (f, some text) }
  | _ => .error .unknownArgument

end Scan

/-- What an argument looks like. -/
inductive ArgumentForm where
  /-- Two hyphens: no options follow. -/
  | stop
  | long (name : String) (value : Option String)
  | letters (cs : List Char)
  | plain
  deriving DecidableEq, Repr

/-- The form of an argument. -/
def ArgumentForm.of (arg : String) : ArgumentForm :=
  match arg.toList with
  | ['-', '-'] => stop
  | '-' :: '-' :: cs =>
    match cs.dropWhile (· != '=') with
    | [] => long (String.ofList cs) none
    | _ :: value => long (String.ofList (cs.takeWhile (· != '='))) (some (String.ofList value))
  | '-' :: c :: cs => letters (c :: cs)
  | _ => plain

/-- The options that some arguments give. -/
def scanOptions (flags : List Flag) (s : Scan) : List String → Except UsageError Given
  | [] => s.settle
  | arg :: args =>
    match ArgumentForm.of arg with
    | .stop => if args.isEmpty then s.settle else .error .unknownArgument
    | .long name value => do scanOptions flags (← s.longOption flags name value) args
    | .letters cs => do scanOptions flags (← s.letterOptions flags cs) args
    | .plain => do scanOptions flags (← s.value arg) args

end BarScript
