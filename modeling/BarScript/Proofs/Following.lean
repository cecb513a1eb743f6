import BarScript.Proofs.Reading

/-!
# What may follow an expression

`MayFollow place cs`: the text `cs` may stand behind an expression that is printed for `place`. No
tighter level of the grammar goes on there (`MayFollow.Head.op?_none`,
`MayFollow.Head.bracket_none`).
-/

namespace BarScript

open Token (lexemes lexemes_blank lexemes_mark lexemes_slash lexemes_of_munch)

namespace Tightness

/-- The next tighter level. -/
def tighter : Tightness → Tightness
  | ternary => or
  | or => and
  | and => not
  | not => comparison
  | comparison => sum
  | sum => product
  | product => sign
  | sign => bracket
  | bracket => bracket

theorem rank_inj {p q : Tightness} (h : p.rank = q.rank) : p = q := by
  cases p <;> cases q <;> first | rfl | exact absurd h (by decide)

theorem rank_le_bracket (p : Tightness) : p.rank ≤ bracket.rank := by cases p <;> decide

theorem rank_tighter {p : Tightness} (h : p ≠ bracket) : p.tighter.rank = p.rank + 1 := by
  cases p <;> first | rfl | exact absurd rfl h

end Tightness

/-- The level of the expressions with operators of a tier. -/
def Tier.level : Tier → Tightness
  | or => .or
  | and => .and
  | comparison => .comparison
  | sum => .sum
  | product => .product

/-- What may stand behind an expression that is printed for a level. -/
inductive MayFollow : Tightness → List Char → Prop
  | nothing (p : Tightness) : MayFollow p []
  | closing (p : Tightness) {c : Char} (hc : c ∈ [')', ']', ',']) (cs : List Char) :
      MayFollow p (c :: cs)
  | bracket (cs : List Char) : MayFollow .bracket ('[' :: cs)
  | colon (p : Tightness) (cs : List Char) : MayFollow p (' ' :: ':' :: cs)
  | question {p : Tightness} (hp : 0 < p.rank) (cs : List Char) : MayFollow p (' ' :: '?' :: cs)
  | op {p : Tightness} (op : BinaryOp) (hp : op.level.rank ≤ p.rank) (cs : List Char) :
      MayFollow p (' ' :: (op.symbol.toList ++ ' ' :: cs))

theorem MayFollow.mono {p q : Tightness} {cs : List Char} (h : MayFollow p cs)
    (hq : p.rank ≤ q.rank) : MayFollow q cs := by
  cases h with
  | nothing => exact .nothing q
  | closing _ hc cs => exact .closing q hc cs
  | bracket cs =>
    cases q <;> first | exact .bracket cs | exact absurd hq (by decide)
  | colon _ cs => exact .colon q cs
  | question hp cs => exact .question (Nat.lt_of_lt_of_le hp hq) cs
  | op o hp cs => exact .op o (Nat.le_trans hp hq) cs

/-- A word or a number ends in front of what follows an expression. -/
theorem MayFollow.ends {p : Tightness} {cs : List Char} (h : MayFollow p cs) :
    Token.endsWord cs ∧ Token.endsNumber cs := by
  have stops : ∀ c ∈ [' ', ')', ']', ',', '['], Token.continuesWord c = false ∧ ¬c.isDigit ∧
      c ≠ '.' ∧ c ≠ 'e' ∧ c ≠ 'E' := Token.forall_mem_of_all (by decide)
  have hhead : ∀ c ∈ cs.head?, c ∈ [' ', ')', ']', ',', '['] := by
    cases h with
    | closing _ hc cs =>
      rintro _ ⟨⟩
      exact List.mem_cons_of_mem _ (List.mem_append_left ['['] hc)
    | _ => simp
  exact ⟨fun c hc => (stops c (hhead c hc)).1, fun c hc => (stops c (hhead c hc)).2⟩

/-! ## Operators -/

/-- The lexemes of an operator. -/
def BinaryOp.lexemes (s : Nat) : BinaryOp → List Lexeme
  | add => [⟨.symbol '+', '+', s, s + 1⟩]
  | sub => [⟨.symbol '-', '-', s, s + 1⟩]
  | mul => [⟨.symbol '*', '*', s, s + 1⟩]
  | div => [⟨.symbol '/', '/', s, s + 1⟩]
  | mod => [⟨.symbol '%', '%', s, s + 1⟩]
  | eq => [⟨.symbol '=', '=', s, s + 1⟩, ⟨.symbol '=', '=', s + 1, s + 2⟩]
  | ne => [⟨.symbol '!', '!', s, s + 1⟩, ⟨.symbol '=', '=', s + 1, s + 2⟩]
  | lt => [⟨.symbol '<', '<', s, s + 1⟩]
  | le => [⟨.symbol '<', '<', s, s + 1⟩, ⟨.symbol '=', '=', s + 1, s + 2⟩]
  | gt => [⟨.symbol '>', '>', s, s + 1⟩]
  | ge => [⟨.symbol '>', '>', s, s + 1⟩, ⟨.symbol '=', '=', s + 1, s + 2⟩]
  | and => [⟨.word "and", 'a', s, s + 3⟩]
  | or => [⟨.word "or", 'o', s, s + 2⟩]

theorem lexemes_op (op : BinaryOp) (s : Nat) (cs : List Char) :
    lexemes s (' ' :: (op.symbol.toList ++ ' ' :: cs)) =
      op.lexemes (s + 1) ++ lexemes (s + 1 + op.symbol.toList.length + 1) cs := by
  rw [lexemes_blank]
  have mark {c : Char} (hc : Token.isMark c = true) (cs : List Char) (s : Nat) :
      lexemes s (c :: ' ' :: cs) = ⟨.symbol c, c, s, s + 1⟩ :: lexemes (s + 1 + 1) cs := by
    rw [lexemes_mark hc, lexemes_blank]
  have equals {c : Char} (hc : Token.isMark c = true) (cs : List Char) (s : Nat) :
      lexemes s (c :: '=' :: ' ' :: cs) = ⟨.symbol c, c, s, s + 1⟩ ::
        ⟨.symbol '=', '=', s + 1, s + 2⟩ :: lexemes (s + 2 + 1) cs := by
    rw [lexemes_mark hc, mark (by decide)]
  cases op
  case div => exact (lexemes_slash _ _).trans (by rw [lexemes_blank]; rfl)
  case and => exact (lexemes_of_munch (n := 2) rfl _).trans (congrArg _ (lexemes_blank _ _))
  case or => exact (lexemes_of_munch (n := 1) rfl _).trans (congrArg _ (lexemes_blank _ _))
  case eq | ne | le | ge => exact equals (by decide) cs _
  all_goals exact mark (by decide) cs _

namespace Tier

variable {r : List Lexeme} {d fin i j : Nat} {f : Char}

/-- A symbol that belongs to no operator. -/
theorem op?_symbol (t : Tier) {c : Char} (hc : c ∉ ['=', '!', '<', '>', '+', '-', '*', '/', '%']) :
    t.op? ⟨⟨.symbol c, f, i, j⟩ :: r, d, fin⟩ = none := by
  have hline : Token.symbol c ≠ .newline := by rintro ⟨⟩
  simp only [List.mem_cons, List.not_mem_nil, or_false, not_or] at hc
  have equals (x : Char) (hx : c ≠ x) :
      (⟨⟨.symbol c, f, i, j⟩ :: r, d, fin⟩ : Cursor).symbolEquals? x = none :=
    Cursor.symbolEquals?_of_ne hline (by simpa using hx)
  cases t <;>
    simp [op?, Cursor.keyword?, Cursor.symbol?, Cursor.token?_cons, Cursor.plainSymbol?_cons,
      equals, hc]

theorem op?_nil (t : Tier) : t.op? ⟨[], d, fin⟩ = none := by
  cases t <;>
    simp [op?, Cursor.keyword?, Cursor.symbol?, Cursor.token?_nil, Cursor.plainSymbol?_nil,
      Cursor.symbolEquals?_nil]

/-- The lexemes of an operator, with no equals sign behind them. -/
theorem op?_lexemes (t : Tier) (op : BinaryOp) {s : Nat} {rest ls : List Lexeme}
    (hapart : (⟨rest, d, fin⟩ : Cursor).touches (s + op.symbol.toList.length) '=' = false)
    (hls : ls = op.lexemes s ++ rest) :
    (t.op? ⟨ls, d, fin⟩).map (fun p => (p.value, p.next)) =
      if t.level = op.level then some (op, ⟨rest, d, fin⟩) else none := by
  cases op <;> simp only [BinaryOp.lexemes, List.cons_append, List.nil_append] at hls <;>
    subst hls <;> simp [BinaryOp.symbol] at hapart <;> cases t <;>
    simp [op?, level, BinaryOp.level, Cursor.keyword?, Cursor.symbol?, Cursor.token?_cons,
      Cursor.plainSymbol?_cons, Cursor.symbolEquals?_of_ne, Cursor.symbolEquals?_cons,
      Cursor.symbolEquals?_of_apart, hapart, Parsed.map]

end Tier

/-! ## What is found behind an expression -/

namespace MayFollow

variable {p : Tightness} {cs : List Char} (h : MayFollow p cs) (fin d s : Nat)

/-- The front of what follows: a symbol that belongs to no operator, or an operator. -/
inductive Head (p : Tightness) : List Lexeme → Prop
  | nothing : Head p []
  | symbol {c : Char} (hc : c ∈ [')', ']', ',', ':', '[', '?']) (hbracket : c = '[' → p = .bracket)
      (hquestion : c = '?' → 0 < p.rank) (f : Char) (i j : Nat) (r : List Lexeme) :
      Head p (⟨.symbol c, f, i, j⟩ :: r)
  | op (op : BinaryOp) (hp : op.level.rank ≤ p.rank) (s : Nat) (cs : List Char) :
      Head p (op.lexemes s ++ lexemes (s + op.symbol.toList.length + 1) cs)

include h in
theorem head : Head p (lexemes s cs) := by
  cases h with
  | nothing =>
    rw [lexemes]
    exact .nothing
  | @closing _ c hc cs =>
    have hmark : ∀ c ∈ [')', ']', ','], Token.isMark c = true ∧ c ≠ '[' ∧ c ≠ '?' :=
      Token.forall_mem_of_all (by decide)
    rw [lexemes_mark (hmark c hc).1]
    exact .symbol (List.mem_append_left [':', '[', '?'] hc) (fun h => ((hmark c hc).2.1 h).elim)
      (fun h => ((hmark c hc).2.2 h).elim) _ _ _ _
  | bracket cs =>
    rw [lexemes_mark (by decide)]
    exact .symbol (by simp) (fun _ => rfl) (fun h => absurd h (by decide)) _ _ _ _
  | colon _ cs =>
    rw [lexemes_blank, lexemes_mark (by decide)]
    exact .symbol (by simp) (fun h => absurd h (by decide)) (fun h => absurd h (by decide)) _ _ _ _
  | question hp cs =>
    rw [lexemes_blank, lexemes_mark (by decide)]
    exact .symbol (by simp) (fun h => absurd h (by decide)) (fun _ => hp) _ _ _ _
  | op o hp cs =>
    rw [lexemes_op]
    exact .op o hp _ _

end MayFollow

/-- An operator begins with no bracket and no separator. -/
theorem BinaryOp.head_lexemes (op : BinaryOp) (s : Nat) (rest : List Lexeme) :
    ∃ l r, op.lexemes s ++ rest = l :: r ∧ l.token ≠ .newline ∧
      ∀ c ∈ ['(', ')', '[', ']', ',', '?', ':', '.'], l.token ≠ .symbol c := by
  cases op <;> exact ⟨_, _, rfl, by rintro ⟨⟩, by simp⟩

namespace MayFollow.Head

variable {p : Tightness} {ls : List Lexeme} (h : Head p ls) (d fin : Nat)

include h

theorem op?_none {t : Tier} (ht : p.rank < t.level.rank) : t.op? ⟨ls, d, fin⟩ = none := by
  cases h with
  | nothing => exact t.op?_nil
  | symbol hc _ _ f i j r =>
    have hno : ∀ c ∈ [')', ']', ',', ':', '[', '?'],
        c ∉ ['=', '!', '<', '>', '+', '-', '*', '/', '%'] :=
      Token.forall_mem_of_all (by decide)
    exact t.op?_symbol (hno _ hc)
  | op o hp s cs =>
    have hlevel : t.level ≠ o.level := by
      rintro heq
      rw [heq] at ht
      exact Nat.not_le.2 ht hp
    have hop := t.op?_lexemes o (d := d)
      (Cursor.touches_before (Nat.lt_succ_self (s + o.symbol.toList.length)) fin d cs '=') rfl
    rw [if_neg hlevel, Option.map_eq_none_iff] at hop
    exact hop

/-- A bracket or a separator is found where it may stand. -/
theorem symbol?_none {c : Char} (hc : c ∈ ['(', ')', '[', ']', ',', '?', ':', '.'])
    (hno : ∀ x ∈ [')', ']', ',', ':', '[', '?'], (x = '[' → p = .bracket) →
      (x = '?' → 0 < p.rank) → x ≠ c) : (⟨ls, d, fin⟩ : Cursor).symbol? c = none := by
  cases h with
  | nothing => exact Cursor.token?_nil _
  | symbol hx hbracket hquestion f i j r =>
    rw [Cursor.symbol?, Cursor.token?_cons (by rintro ⟨⟩), if_neg]
    rintro ⟨⟩
    exact hno _ hx hbracket hquestion rfl
  | op o hp s cs =>
    obtain ⟨l, r, hls, hline, hl⟩ := o.head_lexemes s (lexemes (s + o.symbol.toList.length + 1) cs)
    rw [hls, Cursor.symbol?, Cursor.token?_cons hline, if_neg (hl c hc)]

theorem bracket_none (hp : p.rank < Tightness.bracket.rank) :
    (⟨ls, d, fin⟩ : Cursor).symbol? '[' = none := by
  refine h.symbol?_none d fin (by decide) fun x _ hbracket _ hx => ?_
  rw [hbracket hx] at hp
  exact absurd hp (by decide)

theorem question_none (hp : p.rank = 0) : (⟨ls, d, fin⟩ : Cursor).symbol? '?' = none := by
  refine h.symbol?_none d fin (by decide) fun x _ _ hquestion hx => ?_
  rw [hp] at hquestion
  exact absurd (hquestion hx) (by decide)

/-- No name of an argument ends here. -/
theorem equals_none : (⟨ls, d, fin⟩ : Cursor).plainSymbol? '=' = none := by
  cases h with
  | nothing => exact Cursor.plainSymbol?_nil _
  | symbol hc _ _ f i j r =>
    rw [Cursor.plainSymbol?_cons (by rintro ⟨⟩), if_neg]
    rintro ⟨⟨⟩, -⟩
    exact absurd hc (by decide)
  | op o hp s cs =>
    cases o <;>
      simp [BinaryOp.lexemes, Cursor.plainSymbol?_cons, Cursor.touches_cons]

/-- No call begins here. -/
theorem call_none (i : Nat) : (⟨ls, d, fin⟩ : Cursor).touches i '(' = false := by
  cases h with
  | nothing => rfl
  | symbol hc _ _ f i j r =>
    rw [Cursor.touches_cons, Bool.and_eq_false_iff]
    refine .inr (beq_eq_false_iff_ne.2 ?_)
    rintro ⟨⟩
    exact absurd hc (by decide)
  | op o hp s cs =>
    obtain ⟨l, r, hls, -, hl⟩ := o.head_lexemes s (lexemes (s + o.symbol.toList.length + 1) cs)
    rw [hls, Cursor.touches_cons, Bool.and_eq_false_iff]
    exact .inr (beq_eq_false_iff_ne.2 (hl '(' (by decide)))

/-- A name ends here. -/
theorem no_member : ∀ l ∈ ls.head?, l.token ≠ .symbol '.' := by
  cases h with
  | nothing => rintro _ ⟨⟩
  | symbol hc _ _ f i j r =>
    rintro _ ⟨⟩ ⟨⟩
    exact absurd hc (by decide)
  | op o hp s cs =>
    obtain ⟨l, r, hls, -, hl⟩ := o.head_lexemes s (lexemes (s + o.symbol.toList.length + 1) cs)
    rw [hls]
    rintro _ ⟨⟩
    exact hl '.' (by decide)

end MayFollow.Head

end BarScript
