import BarScript.Proofs.Standing
import BarScript.Script.Parser

/-!
# The places of a tree

A node that can fail to resolve carries a byte offset. `Expr.marks` and `Statement.marks` list these
offsets, each with the name that has to stand there, if the node is a name or a call. A mark stands
in a text (`Mark.Stands`) if a lexeme starts there and the name can be read there.
-/

namespace BarScript

open Text (byteSize Behind)

/-- A byte offset of a tree, and the name that belongs there. -/
structure Mark where
  position : Nat
  name : Option String

mutual

/-- The marks of an expression. -/
def Expr.marks : Expr → List Mark
  | .number _ => []
  | .flag _ => []
  | .text _ => []
  | .na => []
  | .name n p => [⟨p, some n⟩]
  | .history target offset p => target.marks ++ (offset.marks ++ [⟨p, none⟩])
  | .unary _ e => e.marks
  | .binary _ l r => l.marks ++ r.marks
  | .ternary c y n => c.marks ++ (y.marks ++ n.marks)
  | .call ⟨f, args, p⟩ => ⟨p, some f⟩ :: Arg.allMarks args

def Arg.allMarks : List (Arg Expr) → List Mark
  | [] => []
  | ⟨_, value, p⟩ :: as => ⟨p, none⟩ :: (value.marks ++ Arg.allMarks as)

end

def CallOf.marks (c : Call) : List Mark := ⟨c.position, some c.name⟩ :: Arg.allMarks c.args

def Returned.marks : Returned → List Mark
  | single e => e.marks
  | named fields => fields.flatMap (·.2.marks)

/-- The marks of a statement. -/
def Statement.marks : Statement → List Mark
  | declare _ _ value p => ⟨p, none⟩ :: value.marks
  | reassign _ value p => ⟨p, none⟩ :: value.marks
  | unpack _ call p => ⟨p, none⟩ :: call.marks
  | expr e => e.marks
  | result value p => ⟨p, none⟩ :: value.marks

theorem Expr.marks_call (c : Call) : (Expr.call c).marks = c.marks := by
  cases c
  rfl

/-- A sign in front of an expression has no place of its own. -/
theorem Expr.marks_negated (e : Expr) : e.negated.marks = e.marks := by
  cases e <;> rfl

theorem Arg.allMarks_cons (a : Arg Expr) (as : List (Arg Expr)) :
    Arg.allMarks (a :: as) = Arg.allMarks [a] ++ Arg.allMarks as := by
  simp [Arg.allMarks]

theorem Arg.mem_allMarks {as : List (Arg Expr)} {a : Arg Expr} (ha : a ∈ as) :
    ⟨a.position, none⟩ ∈ Arg.allMarks as ∧ a.value.marks ⊆ Arg.allMarks as := by
  induction as with
  | nil => cases ha
  | cons b as ih =>
    obtain ⟨n, v, p⟩ := b
    rcases List.mem_cons.1 ha with rfl | ha
    · exact ⟨.head _, fun m hm => .tail _ (List.mem_append_left _ hm)⟩
    · exact ⟨.tail _ (List.mem_append_right _ (ih ha).1),
        fun m hm => .tail _ (List.mem_append_right _ ((ih ha).2 hm))⟩

/-- The position of an expression is one of its marks, or the zero of one that has none. -/
theorem Expr.position_marked : (e : Expr) → e.position = 0 ∨ ∃ m ∈ e.marks, m.position = e.position
  | .number _ => .inl rfl
  | .flag _ => .inl rfl
  | .text _ => .inl rfl
  | .na => .inl rfl
  | .name _ _ => .inr ⟨_, .head _, rfl⟩
  | .history _ _ _ =>
    .inr ⟨_, List.mem_append_right _ (List.mem_append_right _ (.head _)), rfl⟩
  | .unary _ e => e.position_marked
  | .binary _ l _ => l.position_marked.imp_right fun ⟨m, hm, h⟩ => ⟨m, List.mem_append_left _ hm, h⟩
  | .ternary c _ _ =>
    c.position_marked.imp_right fun ⟨m, hm, h⟩ => ⟨m, List.mem_append_left _ hm, h⟩
  | .call ⟨_, _, _⟩ => .inr ⟨_, .head _, rfl⟩

/-! ## Marks in a text -/

/-- The name can be read in the text at the byte `n`. -/
def Text.Spells (cs : List Char) (n : Nat) (name : String) : Prop :=
  ∃ rest, Behind cs n (name.toList ++ rest)

/-- The name can be read in the text at the byte `n`, in quotes. -/
def Text.Quotes (cs : List Char) (n : Nat) (name : String) : Prop :=
  ∃ quote own rest, (quote = '"' ∨ quote = '\'') ∧ Behind cs n (quote :: (own ++ rest)) ∧
    Token.quoted? quote (own ++ rest) = some (name.toList, own.length)

/-- One of the lexemes `used` starts at the mark, and its name can be read there. -/
def Mark.Stands (cs : List Char) (used : List Lexeme) (m : Mark) : Prop :=
  (∃ l ∈ used, l.start = m.position) ∧ ∀ n ∈ m.name, Text.Spells cs m.position n

theorem Mark.Stands.mono {cs : List Char} {used used' : List Lexeme} {m : Mark}
    (h : m.Stands cs used) (hused : used ⊆ used') : m.Stands cs used' := by
  obtain ⟨⟨l, hl, hstart⟩, hname⟩ := h
  exact ⟨⟨l, hused hl, hstart⟩, hname⟩

/-- The marks of an expression stand in the text, among the lexemes `used`. -/
def Expr.Stands (cs : List Char) (used : List Lexeme) (e : Expr) : Prop :=
  ∀ m ∈ e.marks, m.Stands cs used

theorem Expr.Stands.mono {cs : List Char} {used used' : List Lexeme} {e : Expr}
    (h : e.Stands cs used) (hused : used ⊆ used') : e.Stands cs used' :=
  fun m hm => (h m hm).mono hused

/-- A field of a record may be a name without a value, perhaps in quotes; then it stands for the
variable of that name. -/
def Expr.StandsFor (cs : List Char) (used : List Lexeme) (key : String) (e : Expr) : Prop :=
  e.Stands cs used ∨
    ∃ p, e = .name key p ∧ (∃ l ∈ used, l.start = p) ∧ Text.Quotes cs p key

theorem Expr.StandsFor.mono {cs : List Char} {used used' : List Lexeme} {key : String} {e : Expr}
    (h : e.StandsFor cs used key) (hused : used ⊆ used') : e.StandsFor cs used' key := by
  rcases h with h | ⟨p, rfl, ⟨l, hl, hstart⟩, hquotes⟩
  · exact .inl (h.mono hused)
  · exact .inr ⟨p, rfl, ⟨l, hused hl, hstart⟩, hquotes⟩

/-- What is returned stands in the text. -/
def Returned.Stands (cs : List Char) (used : List Lexeme) : Returned → Prop
  | single e => e.Stands cs used
  | named fields => ∀ x ∈ fields, x.2.StandsFor cs used x.1

theorem Returned.Stands.mono {cs : List Char} {used used' : List Lexeme} {r : Returned}
    (h : r.Stands cs used) (hused : used ⊆ used') : r.Stands cs used' := by
  cases r with
  | single e => exact Expr.Stands.mono h hused
  | named fields => exact fun x hx => (h x hx).mono hused

/-- A statement stands in the text. -/
def Statement.Stands (cs : List Char) (used : List Lexeme) : Statement → Prop
  | result value p => (∃ l ∈ used, l.start = p) ∧ value.Stands cs used
  | st => ∀ m ∈ st.marks, m.Stands cs used

end BarScript
