import BarScript.Proofs.Levels

/-!
# Expressions made of expressions

Each operator of the language reads back at its own level, if its operands do at the levels where
they are printed: the left operand of a binary operator at the operator's level, since it associates
to the left, and the right one at the next tighter level.
-/

namespace BarScript

open Token (lexemes lexemes_of_munch)

/-- The operators of the same precedence. -/
def BinaryOp.tier : BinaryOp → Tier
  | add | sub => .sum
  | mul | div | mod => .product
  | eq | ne | lt | le | gt | ge => .comparison
  | and => .and
  | or => .or

theorem BinaryOp.level_tier (op : BinaryOp) : op.tier.level = op.level := by cases op <;> rfl

theorem BinaryOp.rightLevel_eq (op : BinaryOp) : op.rightLevel = op.level.tighter := by
  cases op <;> rfl

theorem BinaryOp.level_ne_bracket (op : BinaryOp) : op.level ≠ .bracket := by
  cases op <;> rintro ⟨⟩

/-- An operator behind an expression. -/
theorem op?_before (op : BinaryOp) (fin d s : Nat) (cs : List Char) :
    ∃ s' q, op.tier.op? (.before fin d s (' ' :: (op.symbol.toList ++ ' ' :: cs))) = some q ∧
      q.value = op ∧ q.next = .before fin d s' cs := by
  rw [Cursor.before, lexemes_op]
  have hop := op.tier.op?_lexemes op (d := d)
    (Cursor.touches_before (Nat.lt_succ_self (s + 1 + op.symbol.toList.length)) fin d cs '=') rfl
  rw [if_pos op.level_tier, Option.map_eq_some_iff] at hop
  obtain ⟨q, hq, heq⟩ := hop
  rw [Prod.mk.injEq] at heq
  exact ⟨_, q, hq, heq⟩

namespace Reads

variable {cs cs' cs'' : List Char} {e e' e'' : Expr}

theorem binary (op : BinaryOp) (hl : Reads op.level cs e) (hr : Reads op.rightLevel cs' e') :
    Reads op.level (cs ++ ' ' :: op.symbol.toList ++ ' ' :: cs') (.binary op e e') := by
  intro fin d s more hmore
  rw [List.append_assoc, List.append_assoc, List.cons_append, List.cons_append]
  have hrank : op.rightLevel.rank = op.level.rank + 1 :=
    op.rightLevel_eq ▸ Tightness.rank_tighter op.level_ne_bracket
  have hleft := hl fin d s _ (.op op (Nat.le_refl _) (cs' ++ more))
  obtain ⟨⟨l, next₁, hlater₁⟩, s₁, hread, hvalue, rfl⟩ := hleft.read
  obtain ⟨s₂, ⟨o, next₂, hlater₂⟩, hop, ho, rfl⟩ := op?_before op fin d s₁ (cs' ++ more)
  have hright := hr fin d s₂ more (hmore.mono (by omega))
  obtain ⟨⟨r, next₃, hlater₃⟩, s₃, hread', hvalue', rfl⟩ := hright.readAt_ok hmore (by omega)
  rw [op.rightLevel_eq, ← op.level_tier, readAt_operand] at hread'
  have hgo := chainFrom_some (p := ⟨l, _, hlater₁⟩) hop hread'
  rw [← goOn_tier, ← goOn_tier, op.level_tier] at hgo
  refine ⟨hleft.toStarts, _, s₃, hread.trans hgo, ?_, rfl⟩
  dsimp only at ho hvalue hvalue'
  simp only [Parsed.andThen, Parsed.map, Expr.unplaced, ho, hvalue, hvalue']

/-- Brackets behind an expression. -/
theorem history (ht : Reads .bracket cs e) (ho : Reads .ternary cs' e') (position : Nat) :
    Reads .bracket (cs ++ '[' :: cs' ++ [']']) (.history e e' position) := by
  intro fin d s more hmore
  rw [List.append_assoc, List.append_assoc, List.cons_append, List.singleton_append]
  have htarget := ht fin d s _ (.bracket (cs' ++ ']' :: more))
  obtain ⟨⟨t, next₁, hlater₁⟩, s₁, hread, hvalue, rfl⟩ := htarget.read
  obtain ⟨⟨u, next₂, hlater₂⟩, hbracket, rfl⟩ :=
    Cursor.symbol?_mark (c := '[') (by decide) fin d s₁ (cs' ++ ']' :: more)
  obtain ⟨⟨o, next₃, hlater₃⟩, s₂, hread', hvalue', rfl⟩ :=
    (ho fin (d + 1) (s₁ + 1) _ (.closing (c := ']') _ (by decide) more)).read
  obtain ⟨⟨v, next₄, hlater₄⟩, hclosing, rfl⟩ :=
    Cursor.expectClosing_mark (c := ']') (by decide) fin d s₂ more
  have hgo := historyFrom_some (p := ⟨t, _, hlater₁⟩) hbracket hread' hclosing
  refine ⟨htarget.toStarts, _, s₂ + 1, hread.trans hgo, ?_, rfl⟩
  dsimp only at hvalue hvalue'
  simp only [Parsed.andThen, Parsed.map, Expr.unplaced, hvalue, hvalue']

theorem ternary (hc : Reads .or cs e) (hy : Reads .ternary cs' e') (hn : Reads .ternary cs'' e'') :
    Reads .ternary (cs ++ " ? ".toList ++ cs' ++ " : ".toList ++ cs'') (.ternary e e' e'') := by
  intro fin d s more hmore
  have htext : cs ++ " ? ".toList ++ cs' ++ " : ".toList ++ cs'' ++ more =
      cs ++ ' ' :: '?' :: ' ' :: (cs' ++ ' ' :: ':' :: ' ' :: (cs'' ++ more)) := by
    simp only [String.reduceToList, List.append_assoc, List.cons_append, List.nil_append]
  rw [htext]
  let colon := ' ' :: ':' :: ' ' :: (cs'' ++ more)
  have hcond := hc fin d s _ (.question (by decide) (' ' :: (cs' ++ colon)))
  obtain ⟨⟨c, next₁, hlater₁⟩, s₁, hread, hvalue, rfl⟩ := hcond.read
  have hchain : chain .or (.before fin d s (cs ++ ' ' :: '?' :: ' ' :: (cs' ++ colon))) =
      .ok ⟨c, _, hlater₁⟩ := by
    refine hread.trans (chainFrom_none ?_)
    dsimp only
    rw [Cursor.before_blank, Cursor.before_mark (by decide)]
    exact Tier.op?_symbol .or (by decide)
  have hmark : ∃ p, (Cursor.before fin d s₁ (' ' :: '?' :: ' ' :: (cs' ++ colon))).symbol? '?' =
      some p ∧ p.next = .before fin d (s₁ + 3) (cs' ++ colon) := by
    rw [Cursor.before_blank, ← Cursor.before_blank fin d (s₁ + 2)]
    exact Cursor.symbol?_mark (by decide) fin d (s₁ + 1) _
  obtain ⟨⟨u, next₂, hlater₂⟩, hquestion, rfl⟩ := hmark
  have hyes := hy fin (d + 1) (s₁ + 3) _ (.colon _ (' ' :: (cs'' ++ more)))
  obtain ⟨⟨y, next₃, hlater₃⟩, s₂, hread', hvalue', rfl⟩ := hyes.read
  have hclose : ∃ p, (Cursor.before fin (d + 1) s₂ colon).expectClosing ':' = .ok p ∧
      p.next = .before fin d (s₂ + 3) (cs'' ++ more) := by
    rw [Cursor.before_blank, ← Cursor.before_blank fin d (s₂ + 2)]
    exact Cursor.expectClosing_mark (by decide) fin d (s₂ + 1) _
  obtain ⟨⟨v, next₄, hlater₄⟩, hcolon, rfl⟩ := hclose
  obtain ⟨⟨n, next₅, hlater₅⟩, s₃, hread'', hvalue'', rfl⟩ :=
    (hn fin d (s₂ + 3) more hmore).read
  have hternary := expression_ternary (p := ⟨c, _, hlater₁⟩) hchain hquestion hread' hcolon hread''
  refine ⟨hcond.toStarts.mono (by decide), _, s₃, hternary, ?_, rfl⟩
  dsimp only at hvalue hvalue' hvalue''
  simp only [Parsed.andThen, Parsed.map, Expr.unplaced, hvalue, hvalue', hvalue'']

theorem not (h : Reads .not cs e) : Reads .not ("not ".toList ++ cs) (.unary .not e) := by
  intro fin d s more hmore
  have hword : lexemes s ('n' :: 'o' :: 't' :: ' ' :: (cs ++ more)) =
      ⟨.word "not", 'n', s, s + 3⟩ :: lexemes (s + 4) (cs ++ more) :=
    (lexemes_of_munch (n := 2) rfl s).trans (congrArg _ (Token.lexemes_blank (s + 3) _))
  have hopen : Cursor.before fin d s ("not ".toList ++ cs ++ more) =
      ⟨⟨.word "not", 'n', s, s + 3⟩ :: lexemes (s + 4) (cs ++ more), d, fin⟩ := by
    simp only [Cursor.before, String.reduceToList, List.cons_append, List.nil_append, hword]
  obtain ⟨⟨v, next, hlater⟩, s', hread, hvalue, rfl⟩ := (h fin d (s + 4) more hmore).read
  obtain ⟨⟨u, next, hlater'⟩, hkeyword, rfl⟩ :=
    Cursor.token?_self (l := ⟨.word "not", 'n', s, s + 3⟩) (r := lexemes (s + 4) (cs ++ more))
      (d := d) (by rintro ⟨⟩)
  have hstarts :
      Starts .not ⟨⟨.word "not", 'n', s, s + 3⟩ :: lexemes (s + 4) (cs ++ more), d, fin⟩ :=
    .of_word (argName?_keyword (by decide)) fun h => absurd h (by decide)
  rw [hopen]
  refine ⟨hstarts, _, s', negation_not hkeyword hread, ?_, rfl⟩
  dsimp only at hvalue
  simp only [Parsed.andThen, Parsed.map, Expr.unplaced, hvalue]

/-- A minus sign, which belongs to a number behind it. -/
theorem minus (h : Reads .sign cs e) : Reads .sign ('-' :: cs) e.negated := by
  intro fin d s more hmore
  obtain ⟨⟨v, next, hlater⟩, s', hread, hvalue, rfl⟩ := (h fin d (s + 1) more hmore).read
  obtain ⟨⟨u, next, hlater'⟩, hminus, rfl⟩ :=
    Cursor.symbol?_mark (c := '-') (by decide) fin d s (cs ++ more)
  have hstarts : Starts .sign (.before fin d s ('-' :: (cs ++ more))) := by
    rw [Cursor.before_mark (by decide)]
    exact .of_lexeme (by rintro ⟨⟩) (by rintro ⟨⟩)
      (argName?_none (by rintro ⟨⟩) (by rintro _ ⟨⟩)) (fun _ => by rintro ⟨⟩)
      fun h => absurd h (by decide)
  refine ⟨hstarts, _, s', signed_minus hminus hread, ?_, rfl⟩
  dsimp only at hvalue
  simp only [Parsed.andThen, Parsed.map, Expr.unplaced_negated, hvalue]

end Reads

end BarScript
