import BarScript.Proofs.Consumption

/-!
# Brackets nest

A cursor counts the open brackets and ternaries. `Cursor.Passes i j c d`: going from `c` to `d` the
parser passes something other than line ends, the count changes by `i`, and the lexemes passed open
`j` more brackets than they close. A rule that succeeds changes neither (`turns_expression`,
`Cursor.turns_statement`); one that reads up to a closing bracket takes one off both
(`turns_arguments`). The count is therefore positive wherever a bracket is open in the text.
-/

namespace BarScript

/-- How many brackets the token opens, less those that it closes. -/
def Token.nest : Token → Int
  | .symbol '(' | .symbol '[' | .symbol '\x7b' => 1
  | .symbol ')' | .symbol ']' | .symbol '\x7d' => -1
  | _ => 0

/-- How many brackets the lexemes open, less those that they close. -/
def nest : List Lexeme → Int
  | [] => 0
  | l :: ls => l.token.nest + nest ls

@[simp] theorem nest_nil : nest [] = 0 := rfl

@[simp] theorem nest_cons (l : Lexeme) (ls : List Lexeme) :
    nest (l :: ls) = l.token.nest + nest ls :=
  rfl

@[simp] theorem nest_append (ls ls' : List Lexeme) : nest (ls ++ ls') = nest ls + nest ls' := by
  induction ls with
  | nil => exact (Int.zero_add _).symm
  | cons l ls ih => rw [List.cons_append, nest_cons, nest_cons, ih, Int.add_assoc]

theorem nest_eq_zero {ls : List Lexeme} (h : ∀ l ∈ ls, l.token.nest = 0) : nest ls = 0 := by
  induction ls with
  | nil => rfl
  | cons l ls ih =>
    obtain ⟨hl, hls⟩ := List.forall_mem_cons.1 h
    rw [nest_cons, hl, ih hls]
    rfl

namespace Cursor

/-- From `c` to `d` something other than line ends is passed; the count of what is open changes by
`i`, and `j` brackets are opened in the text. -/
structure Passes (i j : Int) (c d : Cursor) : Prop where
  passed : ∃ used, c.rest = used ++ d.rest ∧ (∃ l ∈ used, l.token ≠ .newline) ∧ nest used = j
  depth : (d.depth : Int) = c.depth + i

/-- The count of what is open where the text ends, if all that is to come are brackets. -/
def level (c : Cursor) : Int := c.depth + nest c.rest

namespace Passes

variable {i j i' j' : Int} {c d e : Cursor}

theorem trans (h : c.Passes i j d) (h' : d.Passes i' j' e) : c.Passes (i + i') (j + j') e := by
  obtain ⟨used, hrest, ⟨l, hl, hline⟩, rfl⟩ := h.passed
  obtain ⟨used', hrest', -, rfl⟩ := h'.passed
  refine ⟨⟨used ++ used', ?_, ⟨l, List.mem_append_left _ hl, hline⟩, nest_append _ _⟩, ?_⟩
  · rw [hrest, hrest', List.append_assoc]
  · rw [h'.depth, h.depth, Int.add_assoc]

theorem suffix (h : c.Passes i j d) : d.rest <:+ c.rest := by
  obtain ⟨used, hrest, -⟩ := h.passed
  exact ⟨used, hrest.symm⟩

/-- What is open in the end changes by the difference of both counts. -/
theorem level (h : c.Passes i j d) : d.level = c.level + (i - j) := by
  obtain ⟨used, hrest, -, rfl⟩ := h.passed
  rw [Cursor.level, Cursor.level, h.depth, hrest, nest_append]
  omega

theorem opened {β : Type} {p : Parsed d β} (h : c.Passes i j p.next) :
    c.Passes (i + 1) j p.opened.next := by
  refine ⟨h.passed, ?_⟩
  have hopened : p.opened.next.depth = p.next.depth + 1 := rfl
  have := h.depth
  omega

theorem closed {β : Type} {p : Parsed d β} (h : c.Passes i j p.next) (hdepth : 0 < p.next.depth) :
    c.Passes (i - 1) j p.closed.next := by
  refine ⟨h.passed, ?_⟩
  have hclosed : p.closed.next.depth = p.next.depth - 1 := rfl
  have := h.depth
  omega

/-- Where brackets have been opened, one is open. -/
theorem depth_pos (h : c.Passes 1 j d) : 0 < d.depth := by
  have := h.depth
  omega

theorem depth_eq (h : c.Passes 0 j d) : d.depth = c.depth := by
  have := h.depth
  omega

end Passes

/-- A rule that succeeds passes what `i` and `j` say. -/
def Turns (c : Cursor) {d : Cursor} {β : Type} (i j : Int)
    (m : Except SyntaxError (Parsed d β)) : Prop :=
  ∀ p, m = .ok p → c.Passes i j p.next

namespace Turns

variable {c d e : Cursor} {β γ : Type} {i j i' j' : Int}

theorem pure {p : Parsed d β} (h : c.Passes i j p.next) :
    c.Turns i j (.ok p : Except SyntaxError (Parsed d β)) := by
  rintro _ ⟨⟩
  exact h

theorem fail (e : SyntaxError) : c.Turns i j (.error e : Except SyntaxError (Parsed d β)) := nofun

theorem bind {m : Except SyntaxError (Parsed e γ)} (hm : e.Turns i' j' m)
    {f : Parsed e γ → Except SyntaxError (Parsed d β)}
    (hf : ∀ p, e.Passes i' j' p.next → c.Turns i j (f p)) : c.Turns i j (m >>= f) := by
  intro p hp
  obtain ⟨q, hq, hp⟩ := ok_of_bind hp
  exact hf q (hm q hq) p hp

end Turns

/-! ## Lexemes -/

section

variable {c : Cursor} {s : Char} {t : Token} {p : Parsed c Unit}

theorem passes_pop? {p : Parsed c Lexeme} (h : c.pop? = some p) (hline : p.value.token ≠ .newline) :
    c.Passes 0 p.value.token.nest p.next := by
  obtain ⟨lines, hrest, hlines, hdepth, -⟩ := pop?_some h
  have hzero : nest lines = 0 := nest_eq_zero fun l hl => by rw [hlines l hl]; rfl
  refine ⟨⟨lines ++ [p.value], ?_, ⟨_, List.mem_append_right _ (.head _), hline⟩, ?_⟩, ?_⟩
  · rw [hrest, List.append_assoc]
    rfl
  · simp [hzero]
  · rw [hdepth, Int.add_zero]

theorem passes_token? (ht : t ≠ .newline) (h : c.token? t = some p) :
    c.Passes 0 t.nest p.next := by
  obtain ⟨q, hq, rfl, hnext⟩ := pop?_of_token? h
  exact hnext ▸ passes_pop? hq ht

theorem passes_keyword? {w : String} (h : c.keyword? w = some p) : c.Passes 0 0 p.next :=
  passes_token? (t := .word w) nofun h

theorem passes_symbol? (h : c.symbol? s = some p) : c.Passes 0 (Token.symbol s).nest p.next :=
  passes_token? (t := .symbol s) nofun h

theorem passes_plainSymbol? (h : c.plainSymbol? s = some p) :
    c.Passes 0 (Token.symbol s).nest p.next := by
  obtain ⟨q, hq, htoken, hnext⟩ := pop?_of_plainSymbol? h
  have hpasses := passes_pop? hq (by simp [htoken])
  rwa [htoken, ← hnext] at hpasses

theorem passes_symbolEquals? (h : c.symbolEquals? s = some p) :
    c.Passes 0 (Token.symbol s).nest p.next := by
  obtain ⟨q, l, hq, htoken, hequals, hrest, hnext⟩ := pop?_of_symbolEquals? h
  have hpasses := passes_pop? hq (by simp [htoken])
  rw [htoken] at hpasses
  obtain ⟨used, hused, hsolid, hnest⟩ := hpasses.passed
  rw [hnext]
  refine ⟨⟨used ++ [l], ?_, ?_, ?_⟩, hpasses.depth⟩
  · rw [hused, List.append_assoc]
    exact congrArg (used ++ ·) hrest
  · exact hsolid.imp fun _ h => ⟨List.mem_append_left _ h.1, h.2⟩
  · rw [nest_append, hnest, nest_cons, hequals]
    exact Int.add_zero _

theorem turns_expect (c : Cursor) (s : Char) :
    c.Turns 0 (Token.symbol s).nest (c.expect s) := by
  unfold expect
  split
  · exact .pure (passes_symbol? ‹_›)
  · exact .fail _

theorem turns_expectClosing (c : Cursor) (s : Char) (hdepth : 0 < c.depth) :
    c.Turns (-1) (Token.symbol s).nest (c.expectClosing s) := by
  intro p hp
  unfold expectClosing at hp
  cases hq : c.expect s with
  | error e =>
    rw [hq] at hp
    cases hp
  | ok q =>
    rw [hq] at hp
    cases hp
    have hpasses := turns_expect c s q hq
    exact hpasses.closed (hpasses.depth_eq ▸ hdepth)

theorem turns_name (c : Cursor) : c.Turns 0 0 c.name := by
  unfold name
  split
  · rename_i p hp
    split
    · rename_i w hw
      split
      · exact .fail _
      · have hpasses := passes_pop? hp (by simp [hw])
        rw [hw] at hpasses
        exact .pure hpasses
    · exact .fail _
  · exact .fail _

end

end Cursor

/-! ## Expressions -/

theorem Tier.passes_op? {t : Tier} {c : Cursor} {p : Parsed c BinaryOp} (h : t.op? c = some p) :
    c.Passes 0 0 p.next := by
  have as {m : Option (Parsed c Unit)} {op : BinaryOp} (hm : ∀ q, m = some q → c.Passes 0 0 q.next)
      (h : (m.map fun q => q.map fun _ => op) = some p) : c.Passes 0 0 p.next := by
    obtain ⟨q, hq, rfl⟩ := Option.map_eq_some_iff.1 h
    exact hm q hq
  cases t with
  | or => exact as (fun q => Cursor.passes_keyword?) h
  | and => exact as (fun q => Cursor.passes_keyword?) h
  | comparison =>
    simp only [op?, Option.orElse_eq_orElse, Option.orElse_eq_or, Option.or_eq_some_iff] at h
    rcases h with h | ⟨-, h | ⟨-, h | ⟨-, h | ⟨-, h | ⟨-, h⟩⟩⟩⟩⟩
    · exact as (fun q => Cursor.passes_symbolEquals?) h
    · exact as (fun q => Cursor.passes_symbolEquals?) h
    · exact as (fun q => Cursor.passes_symbolEquals?) h
    · exact as (fun q => Cursor.passes_symbolEquals?) h
    · exact as (fun q => Cursor.passes_symbol?) h
    · exact as (fun q => Cursor.passes_symbol?) h
  | sum =>
    simp only [op?, Option.orElse_eq_orElse, Option.orElse_eq_or, Option.or_eq_some_iff] at h
    rcases h with h | ⟨-, h⟩
    · exact as (fun q => Cursor.passes_plainSymbol?) h
    · exact as (fun q => Cursor.passes_plainSymbol?) h
  | product =>
    simp only [op?, Option.orElse_eq_orElse, Option.orElse_eq_or, Option.or_eq_some_iff] at h
    rcases h with h | ⟨-, h | ⟨-, h⟩⟩
    · exact as (fun q => Cursor.passes_plainSymbol?) h
    · exact as (fun q => Cursor.passes_plainSymbol?) h
    · exact as (fun q => Cursor.passes_plainSymbol?) h

/-- The members of a name hold no brackets. -/
theorem members_passed (name : String) (stop : Nat) (ls : List Lexeme) :
    ∃ used, ls = used ++ (members name stop ls).2.2 ∧ nest used = 0 := by
  fun_induction members name stop ls with
  | case1 _ _ _ _ _ _ _ _ _ _ _ ih =>
    obtain ⟨used, hused, hnest⟩ := ih
    refine ⟨_ :: _ :: used, congrArg (_ :: _ :: ·) hused, ?_⟩
    rw [nest_cons, nest_cons, hnest]
    rfl
  | case2 => exact ⟨[], rfl, rfl⟩
  | case3 => exact ⟨[], rfl, rfl⟩

theorem Cursor.turns_dottedName (c : Cursor) : c.Turns 0 0 c.dottedName := by
  unfold dottedName
  split
  · rename_i p hp
    split
    · rename_i w hw
      split
      · exact .fail _
      · have hpasses := passes_pop? hp (by simp [hw])
        rw [hw] at hpasses
        obtain ⟨used, hused, hsolid, hnest⟩ := hpasses.passed
        obtain ⟨more, hmore, hzero⟩ := members_passed w p.value.stop p.next.rest
        refine .pure ⟨⟨used ++ more, ?_, ?_, ?_⟩, hpasses.depth⟩
        · rw [List.append_assoc, ← hmore, hused]
        · exact hsolid.imp fun _ h => ⟨List.mem_append_left _ h.1, h.2⟩
        · rw [nest_append, hnest, hzero]
          rfl
    · exact .fail _
  · exact .fail _

theorem Cursor.passes_argName? {c : Cursor} {p : Parsed c String} (h : c.argName? = some p) :
    c.Passes 0 0 p.next := by
  unfold argName? at h
  split at h
  · rename_i n hn
    obtain ⟨q, hq, rfl⟩ := Option.map_eq_some_iff.1 h
    exact (c.turns_name n hn).trans (passes_plainSymbol? hq)
  · cases h

mutual

theorem turns_expression (c : Cursor) : c.Turns 0 0 (expression c) := by
  rw [expression]
  refine .bind (turns_chain .or c) fun cond h₁ => ?_
  have := cond.later
  dsimp only
  split
  · exact .pure h₁
  · rename_i mark hmark
    have := mark.opened.later
    have h₂ := h₁.trans (Cursor.passes_symbol? hmark).opened
    refine .bind (turns_expression _) fun yes h₃ => ?_
    have := yes.later
    have h₃ := h₂.trans h₃
    refine .bind (Cursor.turns_expectClosing _ ':' h₃.depth_pos) fun colon h₄ => ?_
    have := colon.later
    exact .bind (turns_expression _) fun no h₅ => .pure ((h₃.trans h₄).trans h₅)
termination_by 16 * c.rest.length + 14
decreasing_by all_goals ((try simp only [Tier.rank]); omega)

theorem turns_chain (t : Tier) (c : Cursor) : c.Turns 0 0 (chain t c) := by
  rw [chain]
  refine .bind (turns_operand t c) fun first h => ?_
  have := first.later
  exact turns_chainFrom t c first h
termination_by 16 * c.rest.length + t.rank
decreasing_by all_goals (cases t <;> (try simp only [Tier.rank]) <;> omega)

theorem turns_chainFrom (t : Tier) (c : Cursor) (left : Parsed c Expr)
    (h : c.Passes 0 0 left.next) : c.Turns 0 0 (chainFrom t c left) := by
  rw [chainFrom]
  split
  · exact .pure h
  · rename_i op hop
    have := op.later
    refine .bind (turns_operand t op.next) fun right h₂ => ?_
    have := right.later
    exact turns_chainFrom t c _ ((h.trans (Tier.passes_op? hop)).trans h₂)
termination_by 16 * left.next.rest.length + 15
decreasing_by all_goals (cases t <;>
  (try simp only [Tier.rank, Parsed.next_andThen, Parsed.next_map]) <;> omega)

theorem turns_operand (t : Tier) (c : Cursor) : c.Turns 0 0 (operand t c) := by
  rw [operand.eq_def]
  cases t with
  | or => exact turns_chain .and c
  | and => exact turns_negation c
  | comparison => exact turns_chain .sum c
  | sum => exact turns_chain .product c
  | product => exact turns_signed c
termination_by 16 * c.rest.length + t.rank - 1
decreasing_by all_goals ((try simp only [Tier.rank]); omega)

theorem turns_negation (c : Cursor) : c.Turns 0 0 (negation c) := by
  rw [negation]
  split
  · rename_i p hp
    have := p.later
    exact .bind (turns_negation p.next) fun e h => .pure ((Cursor.passes_keyword? hp).trans h)
  · exact turns_chain .comparison c
termination_by 16 * c.rest.length + 9
decreasing_by all_goals ((try simp only [Tier.rank]); omega)

theorem turns_signed (c : Cursor) : c.Turns 0 0 (signed c) := by
  rw [signed]
  split
  · rename_i p hp
    have := p.later
    exact .bind (turns_signed p.next) fun e h => .pure ((Cursor.passes_symbol? hp).trans h)
  split
  · rename_i p hp
    have := p.later
    exact .bind (turns_signed p.next) fun e h => .pure ((Cursor.passes_symbol? hp).trans h)
  · refine .bind (turns_primary c) fun e h => ?_
    have := e.later
    exact turns_historyFrom c e h
termination_by 16 * c.rest.length + 2

theorem turns_historyFrom (c : Cursor) (target : Parsed c Expr)
    (h : c.Passes 0 0 target.next) : c.Turns 0 0 (historyFrom c target) := by
  rw [historyFrom]
  split
  · exact .pure h
  · rename_i bracket hbracket
    have := bracket.opened.later
    have h₂ := h.trans (Cursor.passes_symbol? hbracket).opened
    dsimp only
    refine .bind (turns_expression _) fun offset h₃ => ?_
    have := offset.later
    have h₃ := h₂.trans h₃
    refine .bind (Cursor.turns_expectClosing _ ']' h₃.depth_pos) fun closing h₄ => ?_
    have := closing.later
    exact turns_historyFrom c _ (h₃.trans h₄)
termination_by 16 * target.next.rest.length + 15
decreasing_by all_goals ((try simp only [Parsed.next_andThen, Parsed.next_map]); omega)

theorem turns_primary (c : Cursor) : c.Turns 0 0 (primary c) := by
  rw [primary]
  split
  · exact .fail _
  · rename_i p hp
    have hpasses (hline : p.value.token ≠ .newline) : c.Passes 0 p.value.token.nest p.next :=
      Cursor.passes_pop? hp hline
    dsimp only
    split
    · rename_i hl
      rw [hl] at hpasses
      exact .pure (hpasses nofun)
    · rename_i ht
      rw [ht] at hpasses
      exact .pure (hpasses nofun)
    · exact .fail _
    · exact .fail _
    · exact .fail _
    · rename_i hbracket
      rw [hbracket] at hpasses
      have := p.opened.later
      have h := (hpasses nofun).opened
      refine .bind (turns_expression _) fun e h₂ => ?_
      have h₂ := h.trans h₂
      exact .bind (Cursor.turns_expectClosing _ ')' h₂.depth_pos) fun closing h₃ =>
        .pure (h₂.trans h₃)
    · rename_i hw
      rw [hw] at hpasses
      exact .pure (hpasses nofun)
    · rename_i hw
      rw [hw] at hpasses
      exact .pure (hpasses nofun)
    · refine .bind c.turns_dottedName fun name h => ?_
      have := name.later
      split
      · refine .bind (Cursor.turns_expect _ '(') fun bracket h₂ => ?_
        have := bracket.opened.later
        have h₂ := h.trans h₂.opened
        exact .bind (turns_arguments _ h₂.depth_pos) fun args h₃ => .pure (h₂.trans h₃)
      split
      · exact .pure h
      · exact .pure h
    · exact .fail _
termination_by 16 * c.rest.length + 1
decreasing_by all_goals (simp only [Parsed.rest_opened] at *; omega)

theorem turns_arguments (c : Cursor) (hdepth : 0 < c.depth) :
    c.Turns (-1) (-1) (arguments c) := by
  rw [arguments]
  split
  · rename_i p hp
    have h := Cursor.passes_symbol? hp
    exact .pure (h.closed (h.depth_eq ▸ hdepth))
  · refine .bind (turns_argument c) fun arg h => ?_
    have := arg.later
    dsimp only
    split
    · rename_i comma hcomma
      have := comma.later
      have h₂ := h.trans (Cursor.passes_symbol? hcomma)
      exact .bind (turns_arguments _ (h₂.depth_eq ▸ hdepth)) fun more h₃ => .pure (h₂.trans h₃)
    · exact .bind (Cursor.turns_expectClosing _ ')' (h.depth_eq ▸ hdepth)) fun closing h₂ =>
        .pure (h.trans h₂)
termination_by 16 * c.rest.length + 16

theorem turns_argument (c : Cursor) : c.Turns 0 0 (argument c) := by
  rw [argument]
  split
  · rename_i name hname
    have := name.later
    exact .bind (turns_expression _) fun value h => .pure ((Cursor.passes_argName? hname).trans h)
  · exact .bind (turns_expression c) fun value h => .pure h
termination_by 16 * c.rest.length + 15

end

/-! ## Statements -/

namespace Cursor

theorem turns_key (c : Cursor) : c.Turns 0 0 c.key := by
  unfold key
  split
  · rename_i p hp
    split
    · rename_i ht
      have hpasses := passes_pop? hp (by simp [ht])
      rw [ht] at hpasses
      exact .pure hpasses
    · exact .fail _
    · exact .fail _
    · exact c.turns_name
  · exact c.turns_name

theorem turns_fieldValue {c : Cursor} {key : Parsed c String} (h : c.Passes 0 0 key.next) :
    c.Turns 0 0 (c.fieldValue key) := by
  unfold fieldValue
  split
  · rename_i colon hcolon
    exact .bind (turns_expression _) fun value h₂ =>
      .pure ((h.trans (passes_plainSymbol? hcolon)).trans h₂)
  · exact .pure h

theorem turns_fields (seen : List String) (c : Cursor) (hdepth : 0 < c.depth) :
    c.Turns (-1) (-1) (c.fields seen) := by
  rw [fields]
  split
  · rename_i p hp
    have h := passes_symbol? hp
    exact .pure (h.closed (h.depth_eq ▸ hdepth))
  · refine .bind c.turns_key fun key h => ?_
    dsimp only
    split
    · exact .fail _
    refine .bind (turns_fieldValue h) fun value h₂ => ?_
    have := value.later
    split
    · rename_i comma hcomma
      have := comma.later
      have h₃ := h₂.trans (passes_symbol? hcomma)
      exact .bind (turns_fields _ _ (h₃.depth_eq ▸ hdepth)) fun more h₄ => .pure (h₃.trans h₄)
    · exact .bind (turns_expectClosing _ '\x7d' (h₂.depth_eq ▸ hdepth)) fun closing h₃ =>
        .pure (h₂.trans h₃)
termination_by c.rest.length

theorem turns_returned (c : Cursor) : c.Turns 0 0 c.returned := by
  unfold returned
  split
  · rename_i brace hbrace
    have h := (passes_symbol? hbrace).opened
    exact .bind (turns_fields _ _ h.depth_pos) fun fields h₂ => .pure (h.trans h₂)
  · exact .bind (turns_expression c) fun e h => .pure h

theorem turns_names (c : Cursor) : c.Turns 0 0 c.names := by
  rw [names]
  refine .bind c.turns_name fun name h => ?_
  have := name.later
  dsimp only
  split
  · rename_i comma hcomma
    have := comma.later
    exact .bind (turns_names _) fun more h₂ => .pure ((h.trans (passes_symbol? hcomma)).trans h₂)
  · exact .pure h
termination_by c.rest.length

theorem turns_tupleCall (c : Cursor) : c.Turns 0 0 c.tupleCall := by
  unfold tupleCall
  refine .bind (turns_expression c) fun e h => ?_
  split
  · exact .pure h
  · exact .fail _

theorem turns_tuple (c : Cursor) (position : Nat) (hdepth : 0 < c.depth) :
    c.Turns (-1) (-1) (c.tuple position) := by
  unfold tuple
  refine .bind c.turns_names fun names h => ?_
  refine .bind (turns_expectClosing _ ']' (h.depth_eq ▸ hdepth)) fun closing h₂ => ?_
  split
  · rename_i equals hequals
    have h₃ := (h.trans h₂).trans (passes_plainSymbol? hequals)
    exact .bind (turns_tupleCall _) fun call h₄ => .pure (h₃.trans h₄)
  · exact .fail _

theorem passes_word? {c : Cursor} {x : String × Cursor} (h : c.word? = some x) :
    c.Passes 0 0 x.2 := by
  unfold word? at h
  split at h
  · rename_i p hp
    split at h
    · rename_i w hw
      cases h
      have hpasses := passes_pop? hp (by simp [hw])
      rwa [hw] at hpasses
    · cases h
  · cases h

/-- A type word is passed, or nothing. -/
theorem skipType_passes (c : Cursor) : c.skipType = c ∨ c.Passes 0 0 c.skipType := by
  rw [skipType_eq]
  split
  · rename_i w d hword
    split
    · exact .inr (passes_word? hword)
    · exact .inl rfl
  · exact .inl rfl

/-- What is read behind a type word. -/
theorem passes_skipType {c d : Cursor} (h : c.skipType.Passes 0 0 d) : c.Passes 0 0 d := by
  rcases c.skipType_passes with htype | htype
  · rwa [htype] at h
  · exact htype.trans h

theorem turns_declaration (c : Cursor) (kind : DeclKind) (position : Nat) :
    c.Turns 0 0 (c.declaration kind position) := by
  unfold declaration
  refine .bind (turns_name _) fun name h => ?_
  split
  · rename_i equals hequals
    exact .bind (turns_expression _) fun value h₂ =>
      .pure (passes_skipType ((h.trans (passes_plainSymbol? hequals)).trans h₂))
  · exact .fail _

theorem turns_assignment? {c : Cursor} {position : Nat}
    {m : Except SyntaxError (Parsed c Statement)} (h : c.assignment? position = some m) :
    c.Turns 0 0 m := by
  unfold assignment? at h
  split at h
  · cases h
  rename_i name hname
  have h₁ := turns_name _ name hname
  split at h
  · rename_i sign hsign
    cases h
    exact .bind (turns_expression _) fun value h₂ =>
      .pure (passes_skipType ((h₁.trans (passes_symbolEquals? hsign)).trans h₂))
  split at h
  · rename_i sign hsign
    cases h
    exact .bind (turns_expression _) fun value h₂ =>
      .pure (passes_skipType ((h₁.trans (passes_plainSymbol? hsign)).trans h₂))
  · cases h

/-- **A statement closes the brackets that it opens**, in the text and in the count. -/
theorem turns_statement (c : Cursor) : c.Turns 0 0 c.statement := by
  unfold statement
  dsimp only
  split
  · rename_i p hp
    exact .bind (turns_returned _) fun value h => .pure ((passes_keyword? hp).trans h)
  split
  · rename_i p hp
    exact .bind (turns_declaration _ _ _) fun s h => .pure ((passes_keyword? hp).trans h)
  split
  · rename_i p hp
    exact .bind (turns_declaration _ _ _) fun s h => .pure ((passes_keyword? hp).trans h)
  split
  · rename_i p hp
    have h := (passes_symbol? hp).opened
    exact .bind (turns_tuple _ _ h.depth_pos) fun s h₂ => .pure (h.trans h₂)
  split
  · rename_i s hs
    exact turns_assignment? hs
  · exact .bind (turns_expression c) fun e h => .pure h

end Cursor

end BarScript
