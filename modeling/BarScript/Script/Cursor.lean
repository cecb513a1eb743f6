import BarScript.Script.SyntaxError
import BarScript.Script.Token

/-!
# Reading lexemes

A cursor is a place in a list of lexemes. Inside brackets line ends mean nothing: while `depth` is
positive they are passed over. Every reading function answers with a `Parsed`, which proves that
lexemes have been consumed; that is why the parser ends.
-/

namespace BarScript

/-- The words that are no names. -/
def keywords : List String := ["and", "or", "not", "var", "const", "return", "true", "false"]

/-- A place in a text. -/
structure Cursor where
  /-- The lexemes from here on. -/
  rest : List Lexeme
  /-- How many brackets are open. -/
  depth : Nat
  /-- The length of the text in bytes. -/
  finish : Nat
  deriving DecidableEq, Repr

/-- A value that was read from `c` on, and the place behind it. -/
structure Parsed (c : Cursor) (β : Type) where
  value : β
  next : Cursor
  later : next.rest.length < c.rest.length

namespace Parsed

variable {c : Cursor} {β γ : Type}

/-- What was read behind `p`, as read from where `p` started. -/
def andThen (p : Parsed c β) (q : Parsed p.next γ) : Parsed c γ :=
  ⟨q.value, q.next, Nat.lt_trans q.later p.later⟩

def map (f : β → γ) (p : Parsed c β) : Parsed c γ := ⟨f p.value, p.next, p.later⟩

/-- Behind an opening bracket. -/
def opened (p : Parsed c β) : Parsed c β :=
  ⟨p.value, { p.next with depth := p.next.depth + 1 }, p.later⟩

/-- Behind a closing bracket. -/
def closed (p : Parsed c β) : Parsed c β :=
  ⟨p.value, { p.next with depth := p.next.depth - 1 }, p.later⟩

@[simp] theorem next_andThen (p : Parsed c β) (q : Parsed p.next γ) : (p.andThen q).next = q.next :=
  rfl

@[simp] theorem next_map (f : β → γ) (p : Parsed c β) : (p.map f).next = p.next := rfl

@[simp] theorem rest_opened (p : Parsed c β) : p.opened.next.rest = p.next.rest := rfl

@[simp] theorem rest_closed (p : Parsed c β) : p.closed.next.rest = p.next.rest := rfl

end Parsed

namespace Cursor

/-- The place behind line ends that mean nothing. -/
def skip (c : Cursor) : Cursor :=
  if c.depth > 0 then { c with rest := c.rest.dropWhile (·.token == .newline) } else c

theorem length_dropWhile_le {β : Type} (p : β → Bool) (xs : List β) :
    (xs.dropWhile p).length ≤ xs.length := by
  induction xs with
  | nil => simp
  | cons x xs ih =>
    rw [List.dropWhile_cons]
    split
    · exact Nat.le_succ_of_le ih
    · exact Nat.le_refl _

theorem length_skip_le (c : Cursor) : c.skip.rest.length ≤ c.rest.length := by
  unfold skip
  split
  · exact length_dropWhile_le ..
  · exact Nat.le_refl _

/-- The byte offset of the next lexeme, or of the end of the text. -/
def position (c : Cursor) : Nat := (c.skip.rest.head?.map (·.start)).getD c.finish

/-- What stands here. -/
def found (c : Cursor) : Found :=
  match c.skip.rest.head? with
  | none => .endOfInput
  | some l =>
    match l.token with
    | .newline => .endOfLine
    | .word w => .word w
    | _ => .character l.first

/-- A fault at this place. -/
def fault {β : Type} (c : Cursor) (f : Found → SyntaxFault) : Except SyntaxError β :=
  .error ⟨f c.found, c.position⟩

/-- The next lexeme. -/
def pop? (c : Cursor) : Option (Parsed c Lexeme) :=
  match h : c.skip.rest with
  | [] => none
  | l :: r => some ⟨l, { c with rest := r }, by
      have := c.length_skip_le
      rw [h] at this
      exact this⟩

/-- The next lexeme, if it has the token `t`. -/
def token? (c : Cursor) (t : Token) : Option (Parsed c Unit) :=
  match c.pop? with
  | some p => if p.value.token = t then some (p.map fun _ => ()) else none
  | none => none

/-- A keyword. -/
def keyword? (c : Cursor) (w : String) : Option (Parsed c Unit) := c.token? (.word w)

/-- The lexeme here is the symbol `s` and starts at the byte `start`. -/
def touches (c : Cursor) (start : Nat) (s : Char) : Bool :=
  c.rest.head?.any fun l => l.start == start && l.token == .symbol s

/-- A symbol. -/
def symbol? (c : Cursor) (s : Char) : Option (Parsed c Unit) := c.token? (.symbol s)

/-- A symbol that no equals sign touches. -/
def plainSymbol? (c : Cursor) (s : Char) : Option (Parsed c Unit) :=
  match c.pop? with
  | some p =>
    if p.value.token = .symbol s ∧ ¬ p.next.touches p.value.stop '=' then some (p.map fun _ => ())
    else none
  | none => none

/-- A symbol and an equals sign that touches it. -/
def symbolEquals? (c : Cursor) (s : Char) : Option (Parsed c Unit) :=
  match c.pop? with
  | some p =>
    if p.value.token = .symbol s ∧ p.next.touches p.value.stop '=' then
      match h : p.next.rest with
      | [] => none
      | _ :: r => some ⟨(), { p.next with rest := r }, by
          have := p.later
          rw [h] at this
          exact Nat.lt_of_succ_lt this⟩
    else none
  | none => none

/-- The symbol `s`, which has to stand here. -/
def expect (c : Cursor) (s : Char) : Except SyntaxError (Parsed c Unit) :=
  match c.symbol? s with
  | some p => .ok p
  | none => c.fault (.expectedCharacter s)

/-- A closing bracket, which has to stand here. -/
def expectClosing (c : Cursor) (s : Char) : Except SyntaxError (Parsed c Unit) :=
  (c.expect s).map Parsed.closed

/-- A name without points. -/
def name (c : Cursor) : Except SyntaxError (Parsed c String) :=
  match c.pop? with
  | some p =>
    match p.value.token with
    | .word w =>
      if w ∈ keywords then .error ⟨.reservedWord w, p.value.start⟩ else .ok (p.map fun _ => w)
    | _ => c.fault .expectedName
  | none => c.fault .expectedName

end Cursor

end BarScript
