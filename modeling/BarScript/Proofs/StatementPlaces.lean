import BarScript.Proofs.GrammarPlaces
import BarScript.Script.Parser

/-!
# Statements stand where they were read
-/

namespace BarScript

open Text (byteSize Behind)

namespace Cursor

variable {cs : List Char}

/-! ## The rules of a statement -/

/-- A type word is passed or nothing is. -/
theorem trace_skipType (c : Cursor) :
    ∃ used, c.Trace used c.skipType ∧ c.skipType.depth = c.depth := by
  have stay : ∃ used, c.Trace used c ∧ c.depth = c.depth := ⟨[], .refl c, rfl⟩
  unfold skipType
  split
  · rename_i p hp
    split
    · rename_i w q hw hq
      split
      · split
        · obtain ⟨used, htook, -⟩ := took_pop? hp (by rw [hw]; rintro ⟨⟩)
            (by rw [Lexeme.IsOpen, hw]; simp)
          exact ⟨used, htook.toTrace, htook.depth⟩
        · exact stay
      · exact stay
    · exact stay
  · exact stay

/-- A key can be read where it starts, perhaps in quotes. -/
theorem traced_key (c : Cursor) (hc : c.Stands cs) :
    Traced Took (fun _ k => Text.Spells cs c.position k ∨ Text.Quotes cs c.position k) c.key := by
  have name := c.traced_name hc
  have bare : Traced Took
      (fun _ k => Text.Spells cs c.position k ∨ Text.Quotes cs c.position k) c.name :=
    ⟨fun p hp => (name.ok p hp).imp fun _ h => ⟨h.1, .inl h.2⟩, name.error⟩
  unfold key
  split
  · rename_i p hp
    split
    · rename_i t ht
      obtain ⟨used, htook, hmem⟩ := took_pop? hp (by rw [ht]; rintro ⟨⟩)
        (by rw [Lexeme.IsOpen, ht]; simp)
      exact .pure htook (.inr (start_pop? hp ▸ (hc _ (htook.mem hmem)).text ht))
    · exact .fail (points_pop? hp)
    · exact .fail (points_pop? hp)
    · exact bare
  · exact bare

/-- A field holds an expression that stands in the text, or the variable that its key names. -/
theorem traced_fieldValue (c : Cursor) (hc : c.Stands cs) {k : Parsed c String} {u : List Lexeme}
    (h : c.Took u k.next)
    (hk : Text.Spells cs c.position k.value ∨ Text.Quotes cs c.position k.value) :
    Traced Took (fun used e => e.StandsFor cs used k.value) (c.fieldValue k) := by
  unfold fieldValue
  split
  · rename_i colon hcolon
    obtain ⟨u₂, h₂⟩ := took_plainSymbol? (by decide) hcolon
    have t₂ := h.toTrace.trans h₂.toTrace
    refine .bind t₂ (traced_expression _ (t₂.stands hc)) fun value u₃ h₃ hvalue => ?_
    exact .pure (h.trans (h₂.trans h₃)) (.inl (hvalue.mono fun l hl => by simp [hl]))
  · refine .pure h ?_
    rcases hk with hk | hk
    · refine .inl (List.forall_mem_singleton.2 (.here h (List.Subset.refl _) ?_))
      rintro _ ⟨⟩
      exact hk
    · exact .inr ⟨c.position, rfl, h.position_mem, hk⟩

theorem traced_fields (seen : List String) (c : Cursor) (hc : c.Stands cs) :
    Traced Shut (fun used fs => ∀ x ∈ fs, Expr.StandsFor cs used x.1 x.2) (fields seen c) := by
  rw [fields]
  split
  · rename_i p hp
    obtain ⟨u, h⟩ := took_symbol? (by decide) hp
    exact .pure h.shutClosed (List.forall_mem_nil _)
  · refine .bind (.refl c) (c.traced_key hc) fun key u h hkey => ?_
    split
    · exact .fail c.points_position
    refine .bind (.refl c) (c.traced_fieldValue hc h hkey) fun value u₂ h₂ hvalue => ?_
    have := value.later
    dsimp only
    split
    · rename_i comma hcomma
      have := comma.later
      obtain ⟨u₃, h₃⟩ := took_symbol? (by decide) hcomma
      have t₃ := h₂.toTrace.trans h₃.toTrace
      refine .bind t₃ (traced_fields _ _ (t₃.stands hc)) fun more u₄ h₄ hmore => ?_
      refine .pure (h₂.shut (h₃.shut h₄)) (List.forall_mem_cons.2 ⟨?_, fun x hx => ?_⟩)
      · exact hvalue.mono fun l hl => by simp [hl]
      · exact (hmore x hx).mono fun l hl => by simp [hl]
    · refine .bind h₂.toTrace (traced_expectClosing _ (by decide)) fun closing u₃ h₃ _ => ?_
      refine .pure (h₂.shut h₃) (List.forall_mem_singleton.2 ?_)
      exact hvalue.mono fun l hl => by simp [hl]
termination_by c.rest.length

theorem traced_returned (c : Cursor) (hc : c.Stands cs) :
    Traced Took (Returned.Stands cs) c.returned := by
  unfold returned
  split
  · rename_i brace hbrace
    obtain ⟨u, h⟩ := took_symbol? (by decide) hbrace
    have t := h.toTrace.opened
    refine .bind t (traced_fields _ _ (t.stands hc)) fun fs u₂ h₂ hfs => ?_
    exact .pure (h.bracketed h₂) fun x hx => (hfs x hx).mono (List.subset_append_right _ _)
  · refine .bind (.refl c) (traced_expression c hc) fun e u h he => ?_
    exact .pure h he

theorem traced_names (c : Cursor) (hc : c.Stands cs) :
    Traced Took (fun _ _ => True) c.names := by
  rw [names]
  refine .bind (.refl c) (c.traced_name hc) fun name u h _ => ?_
  have := name.later
  dsimp only
  split
  · rename_i comma hcomma
    have := comma.later
    obtain ⟨u₂, h₂⟩ := took_symbol? (by decide) hcomma
    have t₂ := h.toTrace.trans h₂.toTrace
    refine .bind t₂ (traced_names _ (t₂.stands hc)) fun more u₃ h₃ _ => ?_
    exact .pure (h.trans (h₂.trans h₃)) trivial
  · exact .pure h trivial
termination_by c.rest.length

theorem traced_tupleCall (c : Cursor) (hc : c.Stands cs) :
    Traced Took (fun used (call : Call) => ∀ m ∈ call.marks, m.Stands cs used) c.tupleCall := by
  refine .bind (.refl c) (traced_expression c hc) fun e u h he => ?_
  split
  · rename_i call hcall
    refine .pure h fun m hm => he m ?_
    rwa [hcall, Expr.marks_call]
  · exact .fail c.points_position

/-- What is read stands in the text once something starts at its position. -/
def StandsFrom (cs : List Char) (position : Nat) (used : List Lexeme) (s : Statement) : Prop :=
  ∀ all, used ⊆ all → (∃ l ∈ all, l.start = position) → s.Stands cs all

/-- A statement whose expression is read last. -/
theorem StandsFrom.of_last {position : Nat} {u : List Lexeme} {s : Statement} {ms : List Mark}
    (hs : ∀ all, (∀ m ∈ (⟨position, none⟩ : Mark) :: ms, m.Stands cs all) → s.Stands cs all)
    (h : ∀ m ∈ ms, m.Stands cs u) : StandsFrom cs position u s := fun all hall hstart =>
  hs all (List.forall_mem_cons.2 ⟨⟨hstart, nofun⟩, fun m hm => (h m hm).mono hall⟩)

theorem traced_tuple (c : Cursor) (position : Nat) (hc : c.Stands cs) :
    Traced Shut (StandsFrom cs position) (c.tuple position) := by
  refine .bind (.refl c) (c.traced_names hc) fun names u h _ => ?_
  refine .bind h.toTrace (traced_expectClosing _ (by decide)) fun closing u₂ h₂ _ => ?_
  have t₂ := h.toTrace.trans h₂.toTrace
  split
  · rename_i equals hequals
    obtain ⟨u₃, h₃⟩ := took_plainSymbol? (by decide) hequals
    have t₃ := t₂.trans h₃.toTrace
    refine .bind t₃ (traced_tupleCall _ (t₃.stands hc)) fun call u₄ h₄ hcall => ?_
    refine .pure ((h.shut h₂).before (h₃.trans h₄)) (.of_last (fun _ h => h) fun m hm => ?_)
    exact (hcall m hm).mono fun l hl => by simp [hl]
  · exact .fail (t₂.points (points_position _))

theorem traced_declaration (c : Cursor) (kind : DeclKind) (position : Nat) (hc : c.Stands cs) :
    Traced Took (StandsFrom cs position) (c.declaration kind position) := by
  obtain ⟨u, t, hdepth⟩ := c.trace_skipType
  refine .bind t (traced_name _ (t.stands hc)) fun name u₂ h₂ _ => ?_
  have t₂ := t.trans h₂.toTrace
  split
  · rename_i equals hequals
    obtain ⟨u₃, h₃⟩ := took_plainSymbol? (by decide) hequals
    have t₃ := t₂.trans h₃.toTrace
    refine .bind t₃ (traced_expression _ (t₃.stands hc)) fun value u₄ h₄ hvalue => ?_
    refine .pure (.behind t hdepth (h₂.trans (h₃.trans h₄))) (.of_last (fun _ h => h) ?_)
    exact hvalue.mono fun l hl => by simp [hl]
  · exact .fail (t₂.points (points_position _))

theorem traced_assignment? (c : Cursor) (position : Nat) (hc : c.Stands cs) :
    ∀ m ∈ c.assignment? position, Traced Took (StandsFrom cs position) m := by
  obtain ⟨u, t, hdepth⟩ := c.trace_skipType
  intro m hm
  unfold assignment? at hm
  split at hm
  · cases hm
  · rename_i name hname
    obtain ⟨u₂, h₂, -⟩ := (traced_name _ (t.stands hc)).ok name hname
    have t₂ := t.trans h₂.toTrace
    split at hm
    · rename_i sign hsign
      obtain ⟨u₃, h₃⟩ := took_symbolEquals? (by decide) hsign
      have t₃ := t₂.trans h₃.toTrace
      cases hm
      refine .bind t₃ (traced_expression _ (t₃.stands hc)) fun value u₄ h₄ hvalue => ?_
      refine .pure (.behind t hdepth (h₂.trans (h₃.trans h₄))) (.of_last (fun _ h => h) ?_)
      exact hvalue.mono fun l hl => by simp [hl]
    split at hm
    · rename_i sign hsign
      obtain ⟨u₃, h₃⟩ := took_plainSymbol? (by decide) hsign
      have t₃ := t₂.trans h₃.toTrace
      cases hm
      refine .bind t₃ (traced_expression _ (t₃.stands hc)) fun value u₄ h₄ hvalue => ?_
      refine .pure (.behind t hdepth (h₂.trans (h₃.trans h₄))) (.of_last (fun _ h => h) ?_)
      exact hvalue.mono fun l hl => by simp [hl]
    · cases hm

theorem StandsFrom.here {c d : Cursor} {u v : List Lexeme} {s : Statement} (h : c.Took v d)
    (hs : StandsFrom cs c.position u s) (hu : u ⊆ v) : s.Stands cs v :=
  hs v hu h.position_mem

/-- **A statement** stands in the text, among the lexemes that its rule has passed. -/
theorem traced_statement (c : Cursor) (hc : c.Stands cs) :
    Traced Took (Statement.Stands cs) c.statement := by
  unfold statement
  dsimp only
  split
  · rename_i p hp
    obtain ⟨u, h⟩ := took_keyword? hp
    refine .bind h.toTrace (traced_returned _ (h.stands hc)) fun value u₂ h₂ hvalue => ?_
    refine .pure (h.trans h₂) ⟨(h.trans h₂).position_mem, ?_⟩
    exact hvalue.mono (List.subset_append_right _ _)
  split
  · rename_i p hp
    obtain ⟨u, h⟩ := took_keyword? hp
    refine .bind h.toTrace (traced_declaration _ _ _ (h.stands hc)) fun s u₂ h₂ hs => ?_
    exact .pure (h.trans h₂) (hs.here (h.trans h₂) (List.subset_append_right _ _))
  split
  · rename_i p hp
    obtain ⟨u, h⟩ := took_keyword? hp
    refine .bind h.toTrace (traced_declaration _ _ _ (h.stands hc)) fun s u₂ h₂ hs => ?_
    exact .pure (h.trans h₂) (hs.here (h.trans h₂) (List.subset_append_right _ _))
  split
  · rename_i p hp
    obtain ⟨u, h⟩ := took_symbol? (by decide) hp
    have t := h.toTrace.opened
    refine .bind t (traced_tuple _ _ (t.stands hc)) fun s u₂ h₂ hs => ?_
    exact .pure (h.bracketed h₂) (hs.here (h.bracketed h₂) (List.subset_append_right _ _))
  split
  · rename_i m hm
    have htraced := c.traced_assignment? c.position hc m hm
    refine ⟨fun p hp => ?_, htraced.error⟩
    obtain ⟨u, h, hs⟩ := htraced.ok p hp
    exact ⟨u, h, hs.here h (List.Subset.refl _)⟩
  · refine .bind (.refl c) (traced_expression c hc) fun e u h he => ?_
    exact .pure h he

end Cursor

/-! ## All statements -/

/-- A statement and the piece of the text, from `start` to `stop`, that it was read from. -/
structure Passage where
  statement : Statement
  start : Nat
  stop : Nat
  deriving Repr

namespace Cursor

/-- Where the last lexeme ends that is passed on the way from `c` to `d`. -/
def stopBefore (c d : Cursor) : Nat :=
  ((c.rest.take (c.rest.length - d.rest.length)).getLast?.map (·.stop)).getD c.position

/-- The statements from here on with the pieces of the text that they are read from. -/
def passages (c : Cursor) : Except SyntaxError (List Passage) :=
  let start := c.skipSeparators
  have : start.rest.length ≤ c.rest.length := length_dropWhile_le ..
  if start.rest.isEmpty then .ok []
  else do
    let s ← statement start
    have := s.later
    endOfStatement s.next
    let more ← passages s.next
    return ⟨s.value, start.position, start.stopBefore s.next⟩ :: more
termination_by c.rest.length

/-- From here on the passages `ps` are read. -/
inductive Reads : Cursor → List Passage → Prop
  | done {c : Cursor} (h : c.skipSeparators.rest = []) : Reads c []
  | cons {c : Cursor} {s : Parsed c.skipSeparators Statement} {ps : List Passage}
      (h : c.skipSeparators.rest ≠ []) (hs : statement c.skipSeparators = .ok s)
      (hend : endOfStatement s.next = .ok ()) (more : Reads s.next ps) :
      Reads c (⟨s.value, c.skipSeparators.position, c.skipSeparators.stopBefore s.next⟩ :: ps)

/-- Only line ends and semicolons are passed over. -/
theorem skipSeparators_rest (c : Cursor) :
    ∃ lines, c.rest = lines ++ c.skipSeparators.rest ∧
      ∀ l ∈ lines, l.token = .newline ∨ l.token = .symbol ';' := by
  refine ⟨_, List.takeWhile_append_dropWhile.symm, fun l hl => ?_⟩
  have hseparator := List.mem_takeWhile_imp hl
  exact (Bool.or_eq_true_iff.1 hseparator).imp beq_iff_eq.1 beq_iff_eq.1

theorem trace_skipSeparators (c : Cursor) : ∃ used, c.Trace used c.skipSeparators := by
  obtain ⟨lines, hrest, hlines⟩ := c.skipSeparators_rest
  refine ⟨lines, hrest, rfl, fun l hl => ?_⟩
  rw [Lexeme.IsOpen]
  rcases hlines l hl with h | h <;> rw [h] <;> decide

/-- Behind a statement stands a separator, or nothing; otherwise the fault points there. -/
theorem points_endOfStatement {c : Cursor} {e : SyntaxError}
    (h : c.endOfStatement = .error e) : c.Points e.position := by
  unfold endOfStatement at h
  split at h
  · cases h
  split at h
  · cases h
  · cases h
    exact c.points_position

/-- Statements are read, or there is a fault that points into the text. -/
theorem reads_or_points {cs : List Char} (c : Cursor) (hc : c.Stands cs) :
    (∃ ps, c.Reads ps ∧ c.passages = .ok ps ∧ c.statements = .ok (ps.map (·.statement))) ∨
      ∃ e, c.Points e.position ∧ c.passages = .error e ∧ c.statements = .error e := by
  have hlater : c.skipSeparators.rest.length ≤ c.rest.length := length_dropWhile_le ..
  obtain ⟨u, t⟩ := c.trace_skipSeparators
  have htraced := traced_statement _ (t.stands hc)
  rw [passages, statements]
  dsimp only
  by_cases hempty : c.skipSeparators.rest = []
  · have htrue : c.skipSeparators.rest.isEmpty = true := by rw [hempty, List.isEmpty_nil]
    rw [if_pos htrue, if_pos htrue]
    exact .inl ⟨[], .done hempty, rfl, rfl⟩
  have hfalse : ¬ c.skipSeparators.rest.isEmpty = true := by rwa [List.isEmpty_iff]
  rw [if_neg hfalse, if_neg hfalse]
  cases hs : statement c.skipSeparators with
  | error e => exact .inr ⟨e, t.points (htraced.error e hs), rfl, rfl⟩
  | ok s =>
    obtain ⟨u', h', -⟩ := htraced.ok s hs
    have t' := t.trans h'.toTrace
    dsimp only [bind, Except.bind]
    cases hend : endOfStatement s.next with
    | error e => exact .inr ⟨e, t'.points (points_endOfStatement hend), rfl, rfl⟩
    | ok _ =>
      have := s.later
      rcases reads_or_points s.next (t'.stands hc) with
        ⟨ps, hreads, hps, hss⟩ | ⟨e, hpoints, hps, hss⟩
      · dsimp only
        rw [hps, hss]
        exact .inl ⟨_, .cons hempty hs hend hreads, rfl, rfl⟩
      · dsimp only
        rw [hps, hss]
        exact .inr ⟨e, t'.points hpoints, rfl, rfl⟩
termination_by c.rest.length

/-- The lexemes from here on stand behind one another. -/
def Ordered (c : Cursor) : Prop := c.rest.Pairwise fun l l' => l.stop ≤ l'.start

theorem Trace.ordered {c d : Cursor} {u : List Lexeme} (h : c.Trace u d) (hc : c.Ordered) :
    d.Ordered := by
  rw [Ordered, h.rest] at hc
  exact (List.pairwise_append.1 hc).2.1

/-- What a rule has passed stands between the position of the cursor and the last stop. -/
theorem Took.between {cs : List Char} {c d : Cursor} {u : List Lexeme} (h : c.Took u d)
    (hc : c.Stands cs) (hordered : c.Ordered) (hdepth : c.depth = 0) :
    ∀ l ∈ u, c.position ≤ l.start ∧ l.start < c.stopBefore d := by
  have hsize : ∀ l ∈ u, l.start < l.stop := fun l hl => by
    obtain ⟨_, _, -, -, hlt, -⟩ := hc l (h.mem hl)
    exact hlt
  have hu : u.Pairwise fun l l' => l.stop ≤ l'.start := by
    rw [Ordered, h.rest] at hordered
    exact (List.pairwise_append.1 hordered).1
  have htake : c.rest.take (c.rest.length - d.rest.length) = u := by
    rw [h.rest, List.length_append, Nat.add_sub_cancel, List.take_left]
  have hne : u ≠ [] := by
    obtain ⟨l, hl, -⟩ := h.solid
    exact List.ne_nil_of_mem hl
  intro l hl
  constructor
  · obtain ⟨first, more, rfl⟩ := List.exists_cons_of_ne_nil hne
    have hposition : c.position = first.start := by
      simp [position, skip, hdepth, h.rest]
    rw [hposition]
    rcases List.mem_cons.1 hl with rfl | hl
    · exact Nat.le_refl _
    · have hfirst := hsize first (.head _)
      have hle := (List.pairwise_cons.1 hu).1 l hl
      omega
  · obtain ⟨front, last, rfl⟩ : ∃ front last, u = front ++ [last] :=
      ⟨_, _, (List.dropLast_concat_getLast hne).symm⟩
    have hstop : c.stopBefore d = last.stop := by
      simp [stopBefore, htake]
    rw [hstop]
    rcases List.mem_append.1 hl with hl | hl
    · have hl' := hsize l (List.mem_append_left _ hl)
      have hlast := hsize last (List.mem_append_right _ (.head _))
      have hle := (List.pairwise_append.1 hu).2.2 l hl last (.head _)
      omega
    · obtain rfl := List.mem_singleton.1 hl
      exact hsize l (List.mem_append_right _ (.head _))

end Cursor

/-- The statement of the passage stands in the text, between its start and its stop. -/
def Passage.Holds (cs : List Char) (p : Passage) : Prop :=
  ∃ used, p.statement.Stands cs used ∧
    ∀ l ∈ used, l.Stands cs ∧ p.start ≤ l.start ∧ l.start < p.stop

namespace Cursor

variable {cs : List Char} {c : Cursor} {ps : List Passage}

/-- **Every statement stands in its own passage.** -/
theorem Reads.holds (h : c.Reads ps) (hc : c.Stands cs) (hordered : c.Ordered)
    (hdepth : c.depth = 0) : ∀ p ∈ ps, p.Holds cs := by
  induction h with
  | done => exact List.forall_mem_nil _
  | @cons c s ps hne hs hend more ih =>
    obtain ⟨u, t⟩ := c.trace_skipSeparators
    have hstart : c.skipSeparators.Stands cs := t.stands hc
    obtain ⟨used, h, hstands⟩ := (traced_statement _ hstart).ok s hs
    refine List.forall_mem_cons.2 ⟨⟨used, hstands, ?_⟩, ?_⟩
    · exact fun l hl => ⟨hstart l (h.mem hl), h.between hstart (t.ordered hordered) hdepth l hl⟩
    · exact ih (h.stands hstart) (h.ordered (t.ordered hordered)) (h.depth.trans hdepth)

/-- A text whose statements are read has no open quotes. -/
theorem Reads.closed (h : c.Reads ps) (hc : c.Stands cs) : ∀ l ∈ c.rest, ¬ l.IsOpen := by
  induction h with
  | @done c hnil =>
    obtain ⟨u, t⟩ := c.trace_skipSeparators
    rw [t.rest, hnil, List.append_nil]
    exact t.closed
  | @cons c s ps hne hs hend more ih =>
    obtain ⟨u, t⟩ := c.trace_skipSeparators
    obtain ⟨used, h, -⟩ := (traced_statement _ (t.stands hc)).ok s hs
    rw [t.rest, h.rest]
    exact List.forall_mem_append.2 ⟨t.closed, List.forall_mem_append.2
      ⟨h.closed, ih (h.stands (t.stands hc))⟩⟩

/-! ## The start of a text -/

theorem stands_ofText (source : String) : (ofText source).Stands source.toList :=
  Token.stands_lexemes (.zero _)

theorem ordered_ofText (source : String) : (ofText source).Ordered :=
  Token.lexemes_ordered 0 _

end Cursor

/-- A source that is parsed is read in passages. -/
theorem reads_of_parse {source : String} {ss : List Statement} (h : parse source = .ok ss) :
    ∃ ps, (Cursor.ofText source).Reads ps ∧ (Cursor.ofText source).passages = .ok ps ∧
      ps.map (·.statement) = ss := by
  rcases Cursor.reads_or_points _ (Cursor.stands_ofText source) with
    ⟨ps, hreads, hps, hss⟩ | ⟨e, -, -, he⟩
  · exact ⟨ps, hreads, hps, Except.ok.inj (hss.symm.trans h)⟩
  · exact nomatch he.symm.trans h

end BarScript
