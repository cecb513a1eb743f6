import BarScript.Proofs.Following
import BarScript.Script.Printer

/-!
# Reading an expression of a level

An expression that is printed for a level of the grammar is read by the rule of that level
(`Reaches`). The rules of the looser levels hand it through (`Reaches.climb`), and in parentheses
every expression can be read at every level (`Reaches.parenthesized`).
-/

namespace BarScript

mutual

/-- The expression with all positions at zero. -/
def Expr.unplaced : Expr → Expr
  | .number l => .number l
  | .flag b => .flag b
  | .text s => .text s
  | .na => .na
  | .name n _ => .name n 0
  | .history t o _ => .history t.unplaced o.unplaced 0
  | .unary op e => .unary op e.unplaced
  | .binary op l r => .binary op l.unplaced r.unplaced
  | .ternary c y n => .ternary c.unplaced y.unplaced n.unplaced
  | .call ⟨name, args, _⟩ => .call ⟨name, Arg.allUnplaced args, 0⟩

def Arg.allUnplaced : List (Arg Expr) → List (Arg Expr)
  | [] => []
  | ⟨name, value, _⟩ :: as => ⟨name, value.unplaced, 0⟩ :: Arg.allUnplaced as

end

theorem Expr.unplaced_negated (e : Expr) : e.negated.unplaced = e.unplaced.negated := by
  cases e <;> simp only [negated, unplaced]

/-! ## Levels -/

/-- Reads an expression of a level. -/
def readAt : Tightness → (c : Cursor) → Except SyntaxError (Parsed c Expr)
  | .ternary, c => expression c
  | .or, c => chain .or c
  | .and, c => chain .and c
  | .not, c => negation c
  | .comparison, c => chain .comparison c
  | .sum, c => chain .sum c
  | .product, c => chain .product c
  | .sign, c => signed c
  | .bracket, c => bracketed c

/-- How a level goes on behind an expression. -/
def goOn : Tightness → (c : Cursor) → Parsed c Expr → Except SyntaxError (Parsed c Expr)
  | .or, c, p => chainFrom .or c p
  | .and, c, p => chainFrom .and c p
  | .comparison, c, p => chainFrom .comparison c p
  | .sum, c, p => chainFrom .sum c p
  | .product, c, p => chainFrom .product c p
  | .bracket, c, p => historyFrom c p
  | _, _, p => .ok p

theorem goOn_tier (t : Tier) (c : Cursor) (p : Parsed c Expr) :
    goOn t.level c p = chainFrom t c p := by cases t <;> rfl

theorem readAt_operand (t : Tier) (c : Cursor) : readAt t.level.tighter c = operand t c := by
  cases t <;> rw [operand] <;> rfl

/-- What an expression of a level does not begin with. -/
structure Starts (place : Tightness) (c : Cursor) : Prop where
  no_closing : c.symbol? ')' = none
  no_name : c.argName? = none
  no_not : Tightness.not.rank < place.rank → c.keyword? "not" = none
  no_sign : Tightness.sign.rank < place.rank → c.symbol? '-' = none ∧ c.symbol? '+' = none

theorem Starts.mono {p q : Tightness} {c : Cursor} (h : Starts q c) (hpq : p.rank ≤ q.rank) :
    Starts p c where
  no_closing := h.no_closing
  no_name := h.no_name
  no_not hp := h.no_not (Nat.lt_of_lt_of_le hp hpq)
  no_sign hp := h.no_sign (Nat.lt_of_lt_of_le hp hpq)

/-- A lexeme that is no closing parenthesis, no `not`, no sign and no name of an argument. -/
theorem Starts.of_lexeme {place : Tightness} {l : Lexeme} {r : List Lexeme} {d fin : Nat}
    (hline : l.token ≠ .newline) (hclosing : l.token ≠ .symbol ')')
    (hname : (⟨l :: r, d, fin⟩ : Cursor).argName? = none)
    (hnot : Tightness.not.rank < place.rank → l.token ≠ .word "not")
    (hsign : Tightness.sign.rank < place.rank → l.token ≠ .symbol '-' ∧ l.token ≠ .symbol '+') :
    Starts place ⟨l :: r, d, fin⟩ where
  no_closing := by rw [Cursor.symbol?, Cursor.token?_cons hline, if_neg hclosing]
  no_name := hname
  no_not hp := by rw [Cursor.keyword?, Cursor.token?_cons hline, if_neg (hnot hp)]
  no_sign hp := by
    simp only [Cursor.symbol?, Cursor.token?_cons hline, if_neg (hsign hp).1, if_neg (hsign hp).2,
      and_self]

/-- A lexeme that is no word names no argument. -/
theorem argName?_none {l : Lexeme} {r : List Lexeme} {d fin : Nat} (hline : l.token ≠ .newline)
    (hword : ∀ w, l.token ≠ .word w) : (⟨l :: r, d, fin⟩ : Cursor).argName? = none := by
  rw [Cursor.argName?, Cursor.name, Cursor.pop?_cons hline]
  dsimp only
  split
  · rename_i heq
    split at heq
    · rename_i w hw
      exact absurd hw (hword w)
    · cases heq
  · rfl

/-- A keyword names no argument. -/
theorem argName?_keyword {w : String} (hw : w ∈ keywords) {f : Char} {i j : Nat}
    {r : List Lexeme} {d fin : Nat} :
    (⟨⟨.word w, f, i, j⟩ :: r, d, fin⟩ : Cursor).argName? = none := by
  rw [Cursor.argName?, Cursor.name, Cursor.pop?_cons (by rintro ⟨⟩)]
  dsimp only
  rw [if_pos hw]

/-- A literal or an opening parenthesis. -/
theorem Starts.of_literal {place : Tightness} {l : Lexeme} {r : List Lexeme} {d fin : Nat}
    (hline : l.token ≠ .newline) (hword : ∀ w, l.token ≠ .word w)
    (hsymbol : ∀ c ∈ [')', '-', '+'], l.token ≠ .symbol c) : Starts place ⟨l :: r, d, fin⟩ :=
  .of_lexeme hline (hsymbol ')' (by decide)) (argName?_none hline hword) (fun _ => hword _)
    fun _ => ⟨hsymbol '-' (by decide), hsymbol '+' (by decide)⟩

/-- A word that names no argument. -/
theorem Starts.of_word {place : Tightness} {w : String} {f : Char} {i j : Nat} {r : List Lexeme}
    {d fin : Nat} (hname : (⟨⟨.word w, f, i, j⟩ :: r, d, fin⟩ : Cursor).argName? = none)
    (hnot : Tightness.not.rank < place.rank → w ≠ "not") :
    Starts place ⟨⟨.word w, f, i, j⟩ :: r, d, fin⟩ :=
  .of_lexeme (by rintro ⟨⟩) (by rintro ⟨⟩) hname (fun h hw => hnot h (Token.word.inj hw))
    fun _ => ⟨by rintro ⟨⟩, by rintro ⟨⟩⟩

/-- From `c` on the rule of the level reads the expression `e` and is then in front of `more`. -/
structure Reaches (place : Tightness) (c : Cursor) (e : Expr) (fin d : Nat) (more : List Char) :
    Prop extends Starts place c where
  read : ∃ (p : Parsed c Expr) (s : Nat), readAt place c = goOn place c p ∧
    p.value.unplaced = e.unplaced ∧ p.next = .before fin d s more

namespace Reaches

variable {c : Cursor} {e : Expr} {fin d : Nat} {more : List Char} {place own : Tightness}

/-- No tighter level goes on behind the expression. -/
theorem goOn_follows (h : MayFollow place more) (hrank : place.rank < own.rank) (s : Nat)
    (p : Parsed c Expr) (hp : p.next = .before fin d s more) : goOn own c p = .ok p := by
  have hhead := h.head s
  have tier (t : Tier) (ht : place.rank < t.level.rank) : chainFrom t c p = .ok p := by
    refine chainFrom_none ?_
    rw [hp]
    exact hhead.op?_none d fin ht
  cases own with
  | or => exact tier .or hrank
  | and => exact tier .and hrank
  | comparison => exact tier .comparison hrank
  | sum => exact tier .sum hrank
  | product => exact tier .product hrank
  | bracket =>
    refine historyFrom_none ?_
    rw [hp]
    exact hhead.bracket_none d fin hrank
  | ternary => rfl
  | not => rfl
  | sign => rfl

/-- What a tighter level reads. -/
theorem readAt_ok (h : Reaches own c e fin d more) (hmore : MayFollow place more)
    (hrank : place.rank < own.rank) :
    ∃ (p : Parsed c Expr) (s : Nat), readAt own c = .ok p ∧ p.value.unplaced = e.unplaced ∧
      p.next = .before fin d s more := by
  obtain ⟨p, s, hread, hvalue, hnext⟩ := h.read
  exact ⟨p, s, hread.trans (goOn_follows hmore hrank s p hnext), hvalue, hnext⟩

/-- The next looser level hands the expression through. -/
theorem step (hmore : MayFollow place more) (hplace : place ≠ .bracket)
    (h : Reaches place.tighter c e fin d more) : Reaches place c e fin d more := by
  have hrank : place.rank < place.tighter.rank := by
    cases place <;> first | decide | exact absurd rfl hplace
  obtain ⟨p, s, hread, hvalue, hnext⟩ := h.readAt_ok hmore hrank
  refine ⟨h.toStarts.mono (Nat.le_of_lt hrank), p, s, ?_, hvalue, hnext⟩
  have tier (t : Tier) (hoperand : operand t c = .ok p) : chain t c = chainFrom t c p :=
    chain_of_operand hoperand
  cases place with
  | ternary =>
    refine expression_of_chain hread ?_
    rw [hnext]
    exact (hmore.head s).question_none d fin rfl
  | or => exact tier .or ((readAt_operand .or c).symm.trans hread)
  | and => exact tier .and ((readAt_operand .and c).symm.trans hread)
  | comparison => exact tier .comparison ((readAt_operand .comparison c).symm.trans hread)
  | sum => exact tier .sum ((readAt_operand .sum c).symm.trans hread)
  | product => exact tier .product ((readAt_operand .product c).symm.trans hread)
  | not => exact (negation_chain (h.no_not (by decide))).trans hread
  | sign =>
    obtain ⟨hminus, hplus⟩ := h.no_sign (by decide)
    exact (signed_bracketed hminus hplus).trans hread
  | bracket => exact absurd rfl hplace

/-- All looser levels hand the expression through. -/
theorem climb (hmore : MayFollow place more) (hrank : place.rank ≤ own.rank)
    (h : Reaches own c e fin d more) : Reaches place c e fin d more := by
  induction hn : own.rank - place.rank generalizing place with
  | zero =>
    have heq : place = own := Tightness.rank_inj (by omega)
    exact heq ▸ h
  | succ n ih =>
    have hplace : place ≠ .bracket := by
      rintro rfl
      have hle : own.rank ≤ Tightness.bracket.rank := own.rank_le_bracket
      omega
    have htighter := Tightness.rank_tighter hplace
    exact step hmore hplace (ih (hmore.mono (by omega)) (by omega) (by omega))

end Reaches

/-- The text, printed for a level, is read as the expression, whatever may follow. -/
def Reads (place : Tightness) (cs : List Char) (e : Expr) : Prop :=
  ∀ (fin d s : Nat) (more : List Char), MayFollow place more →
    Reaches place (.before fin d s (cs ++ more)) e fin d more

namespace Reads

variable {place own : Tightness} {cs : List Char} {e : Expr}

theorem climb (h : Reads own cs e) (hrank : place.rank ≤ own.rank) : Reads place cs e :=
  fun fin d s more hmore => (h fin d s more (hmore.mono hrank)).climb hmore hrank

/-- An expression in parentheses can be read at every level. -/
theorem parenthesized (h : Reads .ternary cs e) : Reads place ('(' :: cs ++ [')']) e := by
  suffices h : Reads .bracket ('(' :: cs ++ [')']) e from h.climb place.rank_le_bracket
  intro fin d s more hmore
  have hclose : MayFollow .ternary (')' :: more) := .closing _ (by decide) more
  obtain ⟨p, s', hread, hvalue, hnext⟩ := (h fin (d + 1) (s + 1) _ hclose).read
  have hopen : Cursor.before fin d s (('(' :: cs ++ [')']) ++ more) =
      ⟨⟨.symbol '(', '(', s, s + 1⟩ :: Token.lexemes (s + 1) (cs ++ ')' :: more), d, fin⟩ := by
    rw [List.append_assoc]
    exact Cursor.before_mark (by decide) _ _ _ _
  obtain ⟨closing, hclosing, hclosed⟩ : ∃ closing, p.next.expectClosing ')' = .ok closing ∧
      closing.next = .before fin d (s' + 1) more := by
    rw [hnext]
    exact Cursor.expectClosing_mark (by decide) _ _ _ _
  obtain ⟨q, hq, hqvalue, hqnext⟩ :=
    primary_parenthesis (f := '(') (i := s) (j := s + 1) hread hclosing
  rw [hopen]
  exact {
    toStarts := .of_literal (by rintro ⟨⟩) (by rintro _ ⟨⟩) (by simp)
    read := ⟨q, s' + 1, bracketed_of_primary hq, hqvalue ▸ hvalue, hqnext.trans hclosed⟩ }

theorem parenthesize (h : Reads own cs e) : Reads place (parenthesize own place cs) e := by
  unfold BarScript.parenthesize
  split
  · exact (h.climb (Nat.zero_le _)).parenthesized
  · rename_i hrank
    exact h.climb (Nat.le_of_not_lt hrank)

end Reads

end BarScript
