import BarScript.Proofs.Consumption

/-!
# Expressions stand where they were read

The rules of the grammar pass what they read: `traced_expression`, by recursion over the rules. All
positions of the expression are starts of lexemes that were passed, and its names can be read in the
text at their positions.
-/

namespace BarScript

open Text (byteSize Behind)

/-! ## Names -/

theorem Text.Behind.unique {cs rest rest' : List Char} {n : Nat} (h : Behind cs n rest)
    (h' : Behind cs n rest') : rest = rest' := by
  obtain ⟨front, hsplit, -⟩ := h.byteSplit_eq
  obtain ⟨front', hsplit', -⟩ := h'.byteSplit_eq
  exact (Prod.mk.inj (hsplit.symm.trans hsplit')).2

/-- A word can be read where its lexeme starts. -/
theorem Lexeme.Stands.word {cs : List Char} {l : Lexeme} (h : l.Stands cs) {w : String}
    (hw : l.token = .word w) :
    Text.Spells cs l.start w ∧ l.stop = l.start + byteSize w.toList := by
  obtain ⟨own, rest, hbehind, hstop, -, hwritten⟩ := h
  rw [hw] at hwritten
  cases hwritten
  exact ⟨⟨rest, hbehind⟩, hstop⟩

/-- A quoted text can be read where its lexeme starts. -/
theorem Lexeme.Stands.text {cs : List Char} {l : Lexeme} (h : l.Stands cs) {t : String}
    (ht : l.token = .text t) : Text.Quotes cs l.start t := by
  obtain ⟨own, rest, hbehind, -, -, hwritten⟩ := h
  rw [ht] at hwritten
  cases hwritten with
  | text hquote hquoted => exact ⟨_, _, rest, hquote, hbehind, hquoted⟩

/-- A point and a word behind a name that touch it make the name longer. -/
theorem Text.Spells.member {cs : List Char} {s : Nat} {name w : String} {f₁ f₂ : Char}
    {stop₁ stop₂ : Nat} (h : Text.Spells cs s name)
    (hpoint : Lexeme.Stands cs ⟨.symbol '.', f₁, s + byteSize name.toList, stop₁⟩)
    (hword : Lexeme.Stands cs ⟨.word w, f₂, stop₁, stop₂⟩) :
    Text.Spells cs s (name ++ "." ++ w) ∧ stop₂ = s + byteSize (name ++ "." ++ w).toList := by
  obtain ⟨rest, hname⟩ := h
  obtain ⟨own, rest₁, hbehind, hstop₁, -, hwritten⟩ := hpoint
  cases hwritten
  obtain ⟨⟨rest₂, hword⟩, hstop₂⟩ := hword.word rfl
  obtain rfl : rest = '.' :: rest₁ := hname.past.unique hbehind
  obtain rfl : stop₁ = s + byteSize name.toList + byteSize ['.'] := hstop₁
  obtain rfl : rest₁ = w.toList ++ rest₂ := hbehind.past.unique hword
  have hlist : (name ++ "." ++ w).toList = name.toList ++ '.' :: w.toList := by simp
  rw [Text.Spells, hlist]
  refine ⟨⟨rest₂, by simpa using hname⟩, ?_⟩
  rw [Text.byteSize_append, ← List.singleton_append, Text.byteSize_append]
  dsimp only at hstop₂
  omega

/-- A name with all its members can be read where it starts. -/
theorem spells_members {cs : List Char} {s : Nat} {name : String} {stop : Nat} {ls : List Lexeme}
    (h : Text.Spells cs s name) (hstop : stop = s + byteSize name.toList)
    (hls : ∀ l ∈ ls, l.Stands cs) :
    Text.Spells cs s (members name stop ls).1 ∧
      ∃ used, ls = used ++ (members name stop ls).2.2 ∧ ∀ l ∈ used, ¬ l.IsOpen := by
  fun_induction members name stop ls with
  | case1 name stop f₁ start₁ stop₁ w f₂ start₂ stop₂ rest htouch ih =>
    obtain ⟨rfl, rfl⟩ := htouch
    subst hstop
    obtain ⟨hspells, hstop⟩ := h.member (hls _ (.head _)) (hls _ (.tail _ (.head _)))
    obtain ⟨hname, used, hused, hclosed⟩ :=
      ih hspells hstop fun l hl => hls l (.tail _ (.tail _ hl))
    refine ⟨hname, _ :: _ :: used, congrArg (_ :: _ :: ·) hused, ?_⟩
    refine List.forall_mem_cons.2 ⟨by simp [Lexeme.IsOpen], List.forall_mem_cons.2 ⟨?_, hclosed⟩⟩
    simp [Lexeme.IsOpen]
  | case2 => exact ⟨h, [], rfl, List.forall_mem_nil _⟩
  | case3 => exact ⟨h, [], rfl, List.forall_mem_nil _⟩

namespace Cursor

variable {cs : List Char}

/-- A word that is no keyword. -/
theorem took_word {c : Cursor} {p : Parsed c Lexeme} (hp : c.pop? = some p) {w : String}
    (hw : p.value.token = .word w) (hc : c.Stands cs) :
    ∃ used, c.Took used p.next ∧ Text.Spells cs c.position w ∧
      p.value.stop = c.position + byteSize w.toList := by
  obtain ⟨used, htook, hmem⟩ := took_pop? hp (by rw [hw]; rintro ⟨⟩)
    (by rw [Lexeme.IsOpen, hw]; simp)
  exact ⟨used, htook, start_pop? hp ▸ (hc _ (htook.mem hmem)).word hw⟩

/-- A name that is read can be read in the text. -/
theorem traced_name (c : Cursor) (hc : c.Stands cs) :
    Traced Took (fun _ w => Text.Spells cs c.position w) c.name := by
  unfold name
  split
  · rename_i p hp
    split
    · rename_i w hw
      split
      · exact .fail (points_pop? hp)
      · obtain ⟨used, htook, hspells, -⟩ := took_word hp hw hc
        exact .pure htook hspells
    · exact .fault _
  · exact .fault _

theorem traced_dottedName (c : Cursor) (hc : c.Stands cs) :
    Traced Took (fun _ n => Text.Spells cs c.position n.1) c.dottedName := by
  unfold dottedName
  split
  · rename_i p hp
    split
    · rename_i w hw
      split
      · exact .fail (points_pop? hp)
      · obtain ⟨used, htook, hspells, hstop⟩ := took_word hp hw hc
        obtain ⟨hname, more, hmore, hclosed⟩ :=
          spells_members hspells hstop (htook.stands hc)
        have hmembers : p.next.Trace more { p.next with rest := (members w p.value.stop _).2.2 } :=
          ⟨hmore, rfl, hclosed⟩
        exact .pure (htook.before hmembers rfl) hname
    · exact .fault _
  · exact .fault _

theorem took_argName? {c : Cursor} {p : Parsed c String} (hc : c.Stands cs)
    (h : c.argName? = some p) : ∃ used, c.Took used p.next := by
  unfold argName? at h
  split at h
  · rename_i n hn
    obtain ⟨used, htook, -⟩ := (c.traced_name hc).ok n hn
    obtain ⟨q, hq, rfl⟩ := Option.map_eq_some_iff.1 h
    obtain ⟨used', htook'⟩ := took_plainSymbol? (by decide) hq
    exact ⟨_, htook.trans htook'⟩
  · cases h

end Cursor

/-- An operator. -/
theorem Tier.took_op? {t : Tier} {c : Cursor} {p : Parsed c BinaryOp} (h : t.op? c = some p) :
    ∃ used, c.Took used p.next := by
  have as {m : Option (Parsed c Unit)} {op : BinaryOp}
      (hm : ∀ q, m = some q → ∃ used, c.Took used q.next)
      (h : (m.map fun q => q.map fun _ => op) = some p) : ∃ used, c.Took used p.next := by
    obtain ⟨q, hq, rfl⟩ := Option.map_eq_some_iff.1 h
    exact hm q hq
  have symbol {s : Char} (hs : s ≠ '"' ∧ s ≠ '\'') (q : Parsed c Unit) :
      c.symbol? s = some q → ∃ used, c.Took used q.next := Cursor.took_symbol? hs
  have plain {s : Char} (hs : s ≠ '"' ∧ s ≠ '\'') (q : Parsed c Unit) :
      c.plainSymbol? s = some q → ∃ used, c.Took used q.next := Cursor.took_plainSymbol? hs
  have equals {s : Char} (hs : s ≠ '"' ∧ s ≠ '\'') (q : Parsed c Unit) :
      c.symbolEquals? s = some q → ∃ used, c.Took used q.next := Cursor.took_symbolEquals? hs
  have keyword {w : String} (q : Parsed c Unit) :
      c.keyword? w = some q → ∃ used, c.Took used q.next := Cursor.took_keyword?
  cases t with
  | or => exact as keyword h
  | and => exact as keyword h
  | comparison =>
    simp only [op?, Option.orElse_eq_orElse, Option.orElse_eq_or, Option.or_eq_some_iff] at h
    rcases h with h | ⟨-, h | ⟨-, h | ⟨-, h | ⟨-, h | ⟨-, h⟩⟩⟩⟩⟩
    · exact as (equals (by decide)) h
    · exact as (equals (by decide)) h
    · exact as (equals (by decide)) h
    · exact as (equals (by decide)) h
    · exact as (symbol (by decide)) h
    · exact as (symbol (by decide)) h
  | sum =>
    simp only [op?, Option.orElse_eq_orElse, Option.orElse_eq_or, Option.or_eq_some_iff] at h
    rcases h with h | ⟨-, h⟩
    · exact as (plain (by decide)) h
    · exact as (plain (by decide)) h
  | product =>
    simp only [op?, Option.orElse_eq_orElse, Option.orElse_eq_or, Option.or_eq_some_iff] at h
    rcases h with h | ⟨-, h | ⟨-, h⟩⟩
    · exact as (plain (by decide)) h
    · exact as (plain (by decide)) h
    · exact as (plain (by decide)) h

/-! ## Expressions -/

section

variable {cs : List Char}

/-- The mark of a node that stands at the position of a cursor from which something was read. -/
theorem Mark.Stands.here {c d : Cursor} {u v : List Lexeme} (h : c.Took u d) (hv : u ⊆ v)
    {name : Option String} (hname : ∀ n ∈ name, Text.Spells cs c.position n) :
    Mark.Stands cs v ⟨c.position, name⟩ := by
  obtain ⟨l, hl, hstart⟩ := h.position_mem
  exact ⟨⟨l, hv hl, hstart⟩, hname⟩

mutual

theorem traced_expression (c : Cursor) (hc : c.Stands cs) :
    Traced Cursor.Took (Expr.Stands cs) (expression c) := by
  rw [expression]
  refine .bind (.refl c) (traced_chain .or c hc) fun cond u₁ h₁ hcond => ?_
  have := cond.later
  dsimp only
  split
  · exact .pure h₁ hcond
  · rename_i mark hmark
    have := mark.opened.later
    obtain ⟨u₂, h₂⟩ := Cursor.took_symbol? (by decide) hmark
    have t₂ := h₁.toTrace.trans h₂.toTrace.opened
    refine .bind t₂ (traced_expression _ (t₂.stands hc)) fun yes u₃ h₃ hyes => ?_
    have := yes.later
    have t₃ := t₂.trans h₃.toTrace
    refine .bind t₃ (Cursor.traced_expectClosing _ (by decide)) fun colon u₄ h₄ _ => ?_
    have := colon.later
    have t₄ := t₃.trans h₄.toTrace
    refine .bind t₄ (traced_expression _ (t₄.stands hc)) fun no u₅ h₅ hno => ?_
    have h := h₁.trans ((h₂.bracketed (h₃.shut h₄)).trans h₅)
    refine .pure h (List.forall_mem_append.2 ⟨hcond.mono fun l hl => ?_,
      List.forall_mem_append.2 ⟨hyes.mono fun l hl => ?_, hno.mono fun l hl => ?_⟩⟩) <;> simp [hl]
termination_by 16 * c.rest.length + 14
decreasing_by all_goals ((try simp only [Tier.rank]); omega)

theorem traced_chain (t : Tier) (c : Cursor) (hc : c.Stands cs) :
    Traced Cursor.Took (Expr.Stands cs) (chain t c) := by
  rw [chain]
  refine .bind (.refl c) (traced_operand t c hc) fun first u h hfirst => ?_
  have := first.later
  exact traced_chainFrom t c hc h hfirst
termination_by 16 * c.rest.length + t.rank
decreasing_by all_goals (cases t <;> (try simp only [Tier.rank]) <;> omega)

theorem traced_chainFrom (t : Tier) (c : Cursor) (hc : c.Stands cs) {left : Parsed c Expr}
    {u : List Lexeme} (h : c.Took u left.next) (hleft : left.value.Stands cs u) :
    Traced Cursor.Took (Expr.Stands cs) (chainFrom t c left) := by
  rw [chainFrom]
  split
  · exact .pure h hleft
  · rename_i op hop
    have := op.later
    obtain ⟨u₂, h₂⟩ := Tier.took_op? hop
    have t₂ := h.toTrace.trans h₂.toTrace
    refine .bind t₂ (traced_operand t op.next (t₂.stands hc)) fun right u₃ h₃ hright => ?_
    have := right.later
    refine traced_chainFrom t c hc (u := u ++ (u₂ ++ u₃)) (h.trans (h₂.trans h₃)) ?_
    refine List.forall_mem_append.2 ⟨hleft.mono fun l hl => ?_, hright.mono fun l hl => ?_⟩ <;>
      simp [hl]
termination_by 16 * left.next.rest.length + 15
decreasing_by all_goals (cases t <;>
  (try simp only [Tier.rank, Parsed.next_andThen, Parsed.next_map]) <;> omega)

theorem traced_operand (t : Tier) (c : Cursor) (hc : c.Stands cs) :
    Traced Cursor.Took (Expr.Stands cs) (operand t c) := by
  rw [operand.eq_def]
  cases t with
  | or => exact traced_chain .and c hc
  | and => exact traced_negation c hc
  | comparison => exact traced_chain .sum c hc
  | sum => exact traced_chain .product c hc
  | product => exact traced_signed c hc
termination_by 16 * c.rest.length + t.rank - 1
decreasing_by all_goals ((try simp only [Tier.rank]); omega)

theorem traced_negation (c : Cursor) (hc : c.Stands cs) :
    Traced Cursor.Took (Expr.Stands cs) (negation c) := by
  rw [negation]
  split
  · rename_i p hp
    have := p.later
    obtain ⟨u, h⟩ := Cursor.took_keyword? hp
    refine .bind h.toTrace (traced_negation p.next (h.stands hc)) fun e u₂ h₂ he => ?_
    exact .pure (h.trans h₂) (Expr.Stands.mono he (List.subset_append_right _ _))
  · exact traced_chain .comparison c hc
termination_by 16 * c.rest.length + 9
decreasing_by all_goals ((try simp only [Tier.rank]); omega)

theorem traced_signed (c : Cursor) (hc : c.Stands cs) :
    Traced Cursor.Took (Expr.Stands cs) (signed c) := by
  rw [signed]
  split
  · rename_i p hp
    have := p.later
    obtain ⟨u, h⟩ := Cursor.took_symbol? (by decide) hp
    refine .bind h.toTrace (traced_signed p.next (h.stands hc)) fun e u₂ h₂ he => ?_
    refine .pure (h.trans h₂) fun m hm => ?_
    exact (he m (e.value.marks_negated ▸ hm)).mono (List.subset_append_right _ _)
  split
  · rename_i p hp
    have := p.later
    obtain ⟨u, h⟩ := Cursor.took_symbol? (by decide) hp
    refine .bind h.toTrace (traced_signed p.next (h.stands hc)) fun e u₂ h₂ he => ?_
    exact .pure (h.trans h₂) (Expr.Stands.mono he (List.subset_append_right _ _))
  · refine .bind (.refl c) (traced_primary c hc) fun e u h he => ?_
    have := e.later
    exact traced_historyFrom c hc h he
termination_by 16 * c.rest.length + 2

theorem traced_historyFrom (c : Cursor) (hc : c.Stands cs) {target : Parsed c Expr}
    {u : List Lexeme} (h : c.Took u target.next) (htarget : target.value.Stands cs u) :
    Traced Cursor.Took (Expr.Stands cs) (historyFrom c target) := by
  rw [historyFrom]
  split
  · exact .pure h htarget
  · rename_i bracket hbracket
    have := bracket.opened.later
    obtain ⟨u₂, h₂⟩ := Cursor.took_symbol? (by decide) hbracket
    have t₂ := h.toTrace.trans h₂.toTrace.opened
    dsimp only
    refine .bind t₂ (traced_expression _ (t₂.stands hc)) fun offset u₃ h₃ hoffset => ?_
    have := offset.later
    have t₃ := t₂.trans h₃.toTrace
    refine .bind t₃ (Cursor.traced_expectClosing _ (by decide)) fun closing u₄ h₄ _ => ?_
    have := closing.later
    refine traced_historyFrom c hc (u := u ++ (u₂ ++ (u₃ ++ u₄)))
      (h.trans (h₂.bracketed (h₃.shut h₄))) ?_
    refine List.forall_mem_append.2 ⟨htarget.mono fun l hl => ?_, List.forall_mem_append.2
      ⟨hoffset.mono fun l hl => ?_, List.forall_mem_singleton.2 (.here h₂ (fun l hl => ?_) nofun)⟩⟩
      <;> simp [hl]
termination_by 16 * target.next.rest.length + 15
decreasing_by all_goals ((try simp only [Parsed.next_andThen, Parsed.next_map]); omega)

theorem traced_primary (c : Cursor) (hc : c.Stands cs) :
    Traced Cursor.Took (Expr.Stands cs) (primary c) := by
  rw [primary]
  split
  · exact .fault _
  · rename_i p hp
    have hposition := Cursor.start_pop? hp
    have hpoints := Cursor.points_pop? hp
    have took (hline : p.value.token ≠ .newline) (hquote : ¬ p.value.IsOpen) :
        ∃ u, c.Took u p.next := (Cursor.took_pop? hp hline hquote).imp fun _ h => h.1
    dsimp only
    split
    · rename_i l hl
      obtain ⟨u, h⟩ := took (by rw [hl]; rintro ⟨⟩) (by rw [Lexeme.IsOpen, hl]; simp)
      exact .pure h (List.forall_mem_nil _)
    · rename_i t ht
      obtain ⟨u, h⟩ := took (by rw [ht]; rintro ⟨⟩) (by rw [Lexeme.IsOpen, ht]; simp)
      exact .pure h (List.forall_mem_nil _)
    · exact .fail hpoints
    · exact .fail hpoints
    · exact .fail hpoints
    · rename_i hbracket
      have := p.opened.later
      obtain ⟨u, h⟩ := took (by rw [hbracket]; rintro ⟨⟩) (by rw [Lexeme.IsOpen, hbracket]; decide)
      have t := h.toTrace.opened
      refine .bind t (traced_expression _ (t.stands hc)) fun e u₂ h₂ he => ?_
      refine .bind (t.trans h₂.toTrace) (Cursor.traced_expectClosing _ (by decide))
        fun closing u₃ h₃ _ => ?_
      exact .pure (h.bracketed (h₂.shut h₃)) (Expr.Stands.mono he fun l hl => by simp [hl])
    · rename_i hw
      obtain ⟨u, h⟩ := took (by rw [hw]; rintro ⟨⟩) (by rw [Lexeme.IsOpen, hw]; simp)
      exact .pure h (List.forall_mem_nil _)
    · rename_i hw
      obtain ⟨u, h⟩ := took (by rw [hw]; rintro ⟨⟩) (by rw [Lexeme.IsOpen, hw]; simp)
      exact .pure h (List.forall_mem_nil _)
    · refine .bind (.refl c) (c.traced_dottedName hc) fun name u h hname => ?_
      have := name.later
      rw [hposition]
      split
      · refine .bind h.toTrace (Cursor.traced_expect _ (by decide)) fun bracket u₂ h₂ _ => ?_
        have := bracket.opened.later
        have t₂ := h.toTrace.trans h₂.toTrace.opened
        refine .bind t₂ (traced_arguments _ (t₂.stands hc)) fun args u₃ h₃ hargs => ?_
        refine .pure (h.trans (h₂.bracketed h₃)) (List.forall_mem_cons.2 ⟨?_, fun m hm => ?_⟩)
        · refine .here h (List.subset_append_left _ _) ?_
          rintro _ ⟨⟩
          exact hname
        · exact (hargs m hm).mono fun l hl => by simp [hl]
      split
      · exact .pure h (List.forall_mem_nil _)
      · refine .pure h (List.forall_mem_singleton.2 (.here h (List.Subset.refl _) ?_))
        rintro _ ⟨⟩
        exact hname
    · exact .fault _
termination_by 16 * c.rest.length + 1
decreasing_by all_goals (simp only [Parsed.rest_opened] at *; omega)

theorem traced_arguments (c : Cursor) (hc : c.Stands cs) :
    Traced Cursor.Shut (fun used as => ∀ m ∈ Arg.allMarks as, m.Stands cs used) (arguments c) := by
  rw [arguments]
  split
  · rename_i p hp
    obtain ⟨u, h⟩ := Cursor.took_symbol? (by decide) hp
    exact .pure h.shutClosed (List.forall_mem_nil _)
  · refine .bind (.refl c) (traced_argument c hc) fun arg u h harg => ?_
    have := arg.later
    dsimp only
    split
    · rename_i comma hcomma
      have := comma.later
      obtain ⟨u₂, h₂⟩ := Cursor.took_symbol? (by decide) hcomma
      have t₂ := h.toTrace.trans h₂.toTrace
      refine .bind t₂ (traced_arguments _ (t₂.stands hc)) fun more u₃ h₃ hmore => ?_
      refine .pure (h.shut (h₂.shut h₃)) fun m hm => ?_
      rcases List.mem_append.1 (Arg.allMarks_cons .. ▸ hm) with hm | hm
      · exact (harg m hm).mono fun l hl => by simp [hl]
      · exact (hmore m hm).mono fun l hl => by simp [hl]
    · refine .bind h.toTrace (Cursor.traced_expectClosing _ (by decide)) fun closing u₂ h₂ _ => ?_
      refine .pure (h.shut h₂) fun m hm => ?_
      exact (harg m hm).mono fun l hl => by simp [hl]
termination_by 16 * c.rest.length + 16

theorem traced_argument (c : Cursor) (hc : c.Stands cs) :
    Traced Cursor.Took (fun used a => ∀ m ∈ Arg.allMarks [a], m.Stands cs used) (argument c) := by
  rw [argument]
  split
  · rename_i name hname
    have := name.later
    obtain ⟨u, h⟩ := Cursor.took_argName? hc hname
    refine .bind h.toTrace (traced_expression _ (h.stands hc)) fun value u₂ h₂ hvalue => ?_
    refine .pure (h.trans h₂) (List.forall_mem_cons.2 ⟨.here h (List.subset_append_left _ _) nofun,
      List.forall_mem_append.2 ⟨?_, List.forall_mem_nil _⟩⟩)
    exact Expr.Stands.mono hvalue (List.subset_append_right _ _)
  · refine .bind (.refl c) (traced_expression c hc) fun value u h hvalue => ?_
    exact .pure h (List.forall_mem_cons.2 ⟨.here h (List.Subset.refl _) nofun,
      List.forall_mem_append.2 ⟨hvalue, List.forall_mem_nil _⟩⟩)
termination_by 16 * c.rest.length + 15

end

end

end BarScript
