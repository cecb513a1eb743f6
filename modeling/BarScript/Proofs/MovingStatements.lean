import BarScript.Proofs.Moving
import BarScript.Proofs.StatementPlaces

/-!
# Statements move with their text

Statements move with their text like expressions (`Relocation.statement_cursor`). The statements of
a text are therefore read from the other text, in front of what is read behind it
(`Relocation.statements_cursor`).
-/

namespace BarScript

/-! ## Moved statements -/

def CallOf.relocated (f : Nat → Nat) (c : Call) : Call :=
  ⟨c.name, Arg.allRelocated f c.args, f c.position⟩

def Returned.relocated (f : Nat → Nat) : Returned → Returned
  | single e => .single (e.relocated f)
  | named fields => .named (fields.map fun x => (x.1, x.2.relocated f))

/-- The statement with its positions moved by `f`. -/
def Statement.relocated (f : Nat → Nat) : Statement → Statement
  | declare kind name value p => .declare kind name (value.relocated f) (f p)
  | reassign name value p => .reassign name (value.relocated f) (f p)
  | unpack names call p => .unpack names (call.relocated f) (f p)
  | expr e => .expr (e.relocated f)
  | result value p => .result (value.relocated f) (f p)

namespace Relocation

variable (T : Relocation) {c : Cursor}

/-! ## Records -/

theorem key_cursor (hc : T.Fits c) {p : Parsed c String} (h : c.key = .ok p) :
    (T.cursor c).key = .ok (T.parsed id p) := by
  unfold Cursor.key at h ⊢
  split at h
  · rename_i q hq
    rw [T.pop?_some hc hq]
    have htoken : (T.parsed T.lexeme q).value.token = q.value.token := T.token q.value
    dsimp only
    rw [htoken]
    split at h
    · cases h
      rfl
    · cases h
    · cases h
    · exact T.name_cursor hc h
  · rename_i hnone
    obtain ⟨q, hq, -⟩ := Cursor.pop?_of_name h
    cases hnone.symm.trans hq

theorem fieldValue_cursor (hc : T.Fits c) {k : Parsed c String} (h₁ : c.Passes 0 0 k.next)
    {p : Parsed c Expr} (h : c.fieldValue k = .ok p) (hp : p.next.Sealed) :
    (T.cursor c).fieldValue (T.parsed id k) = .ok (T.parsed (Expr.relocated T.place) p) := by
  have fits₁ := T.fits hc h₁ (by decide)
  unfold Cursor.fieldValue at h
  split at h
  · rename_i colon hcolon
    obtain ⟨value, hvalue, h⟩ := ok_of_bind h
    cases h
    have fits₂ := T.fits fits₁ (Cursor.passes_plainSymbol? hcolon) (by decide)
    have hcolon' : (T.parsed id k).next.plainSymbol? ':' = some (T.parsed id colon) :=
      (keeps_plainSymbol? ':').found T fits₁ hcolon
    exact Cursor.fieldValue_colon hcolon' (T.expression_cursor _ fits₂ hvalue hp)
  · rename_i hnone
    cases h
    obtain ⟨l, hl⟩ := h₁.pop?
    rw [Cursor.fieldValue_bare ((keeps_plainSymbol? ':').missed T fits₁ hp hnone),
      T.position_cursor hc hl]
    rfl

theorem fields_cursor (seen : List String) (c : Cursor) (hc : T.Fits c) (hdepth : 0 < c.depth)
    {p : Parsed c (List (String × Expr))} (h : c.fields seen = .ok p) (hp : p.next.Sealed) :
    (T.cursor c).fields seen =
      .ok (T.parsed (List.map fun x => (x.1, x.2.relocated T.place)) p) := by
  rw [Cursor.fields] at h
  split at h
  · rename_i q hq
    cases h
    exact Cursor.fields_nil ((keeps_symbol? '\x7d').found T hc hq)
  · rename_i hnone
    obtain ⟨key, hkey, h⟩ := ok_of_bind h
    dsimp only at h
    split at h
    · cases h
    rename_i hfresh
    obtain ⟨value, hvalue, h⟩ := ok_of_bind h
    have := value.later
    have h₁ := c.turns_key key hkey
    have h₂ := Cursor.turns_fieldValue h₁ value hvalue
    have fits₂ := T.fits hc h₂ (by decide)
    have hnone' := (keeps_symbol? '\x7d').missed T hc h₁.sealed hnone
    split at h
    · rename_i comma hcomma
      have := comma.later
      obtain ⟨more, hmore, h⟩ := ok_of_bind h
      cases h
      have hs := (keeps_symbol? ',').sealed hcomma
      have h₃ := h₂.trans (Cursor.passes_symbol? hcomma)
      exact Cursor.fields_cons hnone' (T.key_cursor hc hkey) hfresh
        (T.fieldValue_cursor hc h₁ hvalue hs) ((keeps_symbol? ',').found T fits₂ hcomma)
        (fields_cursor _ _ (T.fits hc h₃ (by decide)) (h₃.depth_eq ▸ hdepth) hmore hp)
    · rename_i hcomma
      obtain ⟨closing, hclosing, h⟩ := ok_of_bind h
      cases h
      have h₃ := Cursor.turns_expectClosing _ '\x7d' (h₂.depth_eq ▸ hdepth) closing hclosing
      exact Cursor.fields_last hnone' (T.key_cursor hc hkey) hfresh
        (T.fieldValue_cursor hc h₁ hvalue h₃.sealed)
        ((keeps_symbol? ',').missed T fits₂ h₃.sealed hcomma)
        (T.expectClosing_cursor fits₂ hclosing)
termination_by c.rest.length

theorem returned_cursor (hc : T.Fits c) {p : Parsed c Returned} (h : c.returned = .ok p)
    (hp : p.next.Sealed) :
    (T.cursor c).returned = .ok (T.parsed (Returned.relocated T.place) p) := by
  have hs := (c.turns_returned p h).sealed
  unfold Cursor.returned at h ⊢
  split at h
  · rename_i brace hbrace
    obtain ⟨fields, hfields, h⟩ := ok_of_bind h
    cases h
    have h₁ := (Cursor.passes_symbol? hbrace).opened
    have hfields' : Cursor.fields [] (T.parsed id brace).opened.next = _ :=
      T.fields_cursor [] _ (T.fits hc h₁ (by decide)) h₁.depth_pos hfields hp
    rw [(keeps_symbol? '\x7b').found T hc hbrace]
    exact bind_of_ok hfields' _
  · rename_i hnone
    obtain ⟨e, he, h⟩ := ok_of_bind h
    cases h
    rw [(keeps_symbol? '\x7b').missed T hc hs hnone]
    exact bind_of_ok (T.expression_cursor c hc he hp) _

/-! ## Tuples -/

theorem names_cursor (c : Cursor) (hc : T.Fits c) {p : Parsed c (List String)}
    (h : c.names = .ok p) (hp : p.next.Sealed) :
    (T.cursor c).names = .ok (T.parsed id p) := by
  rw [Cursor.names] at h ⊢
  obtain ⟨name, hname, h⟩ := ok_of_bind h
  have := name.later
  have fits₁ := T.fits hc (c.turns_name name hname) (by decide)
  rw [bind_of_ok (T.name_cursor hc hname)]
  dsimp only at h
  split at h
  · rename_i comma hcomma
    obtain ⟨more, hmore, h⟩ := ok_of_bind h
    have := comma.later
    cases h
    have fits₂ := T.fits fits₁ (Cursor.passes_symbol? hcomma) (by decide)
    have hcomma' : (T.parsed id name).next.symbol? ',' = some (T.parsed id comma) :=
      (keeps_symbol? ',').found T fits₁ hcomma
    have hmore' : Cursor.names (Parsed.next (c := (T.parsed id name).next) (T.parsed id comma)) =
        .ok (T.parsed id more) := names_cursor _ fits₂ hmore hp
    rw [hcomma']
    dsimp only
    rw [hmore']
    rfl
  · rename_i hcomma
    cases h
    have hcomma' : (T.parsed id name).next.symbol? ',' = none :=
      (keeps_symbol? ',').missed T fits₁ hp hcomma
    rw [hcomma']
    rfl
termination_by c.rest.length

theorem tupleCall_cursor (hc : T.Fits c) {p : Parsed c Call} (h : c.tupleCall = .ok p)
    (hp : p.next.Sealed) :
    (T.cursor c).tupleCall = .ok (T.parsed (CallOf.relocated T.place) p) := by
  unfold Cursor.tupleCall at h ⊢
  obtain ⟨e, he, h⟩ := ok_of_bind h
  split at h
  · rename_i call hcall
    cases h
    have hcall' : (T.parsed (Expr.relocated T.place) e).value = .call (call.relocated T.place) :=
      congrArg (Expr.relocated T.place) hcall
    rw [bind_of_ok (T.expression_cursor c hc he hp), hcall']
    rfl
  · cases h

theorem tuple_cursor (position : Nat) (hc : T.Fits c) (hdepth : 0 < c.depth)
    {p : Parsed c Statement} (h : c.tuple position = .ok p) (hp : p.next.Sealed) :
    (T.cursor c).tuple (T.place position) = .ok (T.parsed (Statement.relocated T.place) p) := by
  unfold Cursor.tuple at h ⊢
  obtain ⟨names, hnames, h⟩ := ok_of_bind h
  obtain ⟨closing, hclosing, h⟩ := ok_of_bind h
  split at h
  · rename_i equals hequals
    obtain ⟨call, hcall, h⟩ := ok_of_bind h
    cases h
    have h₁ := c.turns_names names hnames
    have h₂ := Cursor.turns_expectClosing _ ']' (h₁.depth_eq ▸ hdepth) closing hclosing
    have fits₁ := T.fits hc h₁ (by decide)
    have fits₂ := T.fits fits₁ h₂ (by decide)
    have fits₃ := T.fits fits₂ (Cursor.passes_plainSymbol? hequals) (by decide)
    exact Cursor.tuple_of (T.names_cursor c hc hnames h₂.sealed)
      (T.expectClosing_cursor fits₁ hclosing) ((keeps_plainSymbol? '=').found T fits₂ hequals)
      (T.tupleCall_cursor fits₃ hcall hp)
  · cases h

/-! ## Assignments -/

theorem word?_cursor (hc : T.Fits c) (hs : c.Sealed) :
    (T.cursor c).word? = c.word?.map fun x => (x.1, T.cursor x.2) := by
  unfold Cursor.word?
  cases hp : c.pop? with
  | none =>
    cases hp' : (T.cursor c).pop? with
    | none => rfl
    | some p =>
      have hline : p.value.token = .newline := T.pop?_none hc hs hp p hp'
      dsimp only
      rw [hline]
      rfl
  | some p =>
    rw [T.pop?_some hc hp]
    dsimp only
    rw [show (T.parsed T.lexeme p).value.token = p.value.token from T.token p.value]
    cases p.value.token <;> rfl

theorem skipType_cursor (hc : T.Fits c) (hdepth : c.depth = 0) :
    (T.cursor c).skipType = T.cursor c.skipType := by
  rw [Cursor.skipType_eq, Cursor.skipType_eq, T.word?_cursor hc (.inl hdepth)]
  cases hword : c.word? with
  | none => rfl
  | some x =>
    have hpasses := Cursor.passes_word? hword
    have hx : x.2.depth = 0 := hpasses.depth_eq.trans hdepth
    dsimp only [Option.map]
    rw [T.word?_cursor (T.fits hc hpasses (by decide)) (.inl hx), Option.isSome_map]
    split <;> rfl

/-- Behind a type word a cursor fits, outside of brackets as in front of it. -/
theorem fits_skipType (hc : T.Fits c) (hdepth : c.depth = 0) :
    T.Fits c.skipType ∧ c.skipType.depth = 0 := by
  rcases c.skipType_passes with htype | htype
  · rw [htype]
    exact ⟨hc, hdepth⟩
  · exact ⟨T.fits hc htype (by decide), htype.depth_eq.trans hdepth⟩

/-- A name, a sign and an expression, read behind a type word. -/
theorem declaration_cursor (kind : DeclKind) (position : Nat) (hc : T.Fits c)
    (hdepth : c.depth = 0) {p : Parsed c Statement} (h : c.declaration kind position = .ok p)
    (hp : p.next.Sealed) :
    (T.cursor c).declaration kind (T.place position) =
      .ok (T.parsed (Statement.relocated T.place) p) := by
  obtain ⟨fits, -⟩ := T.fits_skipType hc hdepth
  unfold Cursor.declaration at h
  obtain ⟨name, hname, h⟩ := ok_of_bind h
  have fits₁ := T.fits fits (Cursor.turns_name _ name hname) (by decide)
  split at h
  · rename_i equals hequals
    obtain ⟨e, he, h⟩ := ok_of_bind h
    cases h
    have fits₂ := T.fits fits₁ (Cursor.passes_plainSymbol? hequals) (by decide)
    obtain ⟨q, hq, hvalue, hnext⟩ := Cursor.declaration_of (T.skipType_cursor hc hdepth)
      (T.name_cursor fits hname) (T.place position) kind
      ((keeps_plainSymbol? '=').found T fits₁ hequals) (T.expression_cursor _ fits₂ he hp)
    rw [hq]
    exact congrArg Except.ok (Parsed.ext hvalue hnext)
  · cases h

theorem assignment?_cursor (position : Nat) (hc : T.Fits c) (hdepth : c.depth = 0)
    {p : Parsed c Statement} (h : c.assignment? position = some (.ok p)) (hp : p.next.Sealed) :
    (T.cursor c).assignment? (T.place position) =
      some (.ok (T.parsed (Statement.relocated T.place) p)) := by
  obtain ⟨fits, -⟩ := T.fits_skipType hc hdepth
  unfold Cursor.assignment? at h
  split at h
  · cases h
  rename_i name hname
  have fits₁ := T.fits fits (Cursor.turns_name _ name hname) (by decide)
  split at h
  · rename_i sign hsign
    obtain ⟨e, he, h⟩ := ok_of_bind (Option.some.inj h)
    cases h
    have fits₂ := T.fits fits₁ (Cursor.passes_symbolEquals? hsign) (by decide)
    obtain ⟨q, hq, hvalue, hnext⟩ := Cursor.assignment?_of_colon (T.skipType_cursor hc hdepth)
      (T.name_cursor fits hname) (T.place position)
      ((keeps_symbolEquals? ':').found T fits₁ hsign) (T.expression_cursor _ fits₂ he hp)
    rw [hq]
    exact congrArg (some ∘ Except.ok) (Parsed.ext hvalue hnext)
  rename_i hcolon
  split at h
  · rename_i sign hsign
    obtain ⟨e, he, h⟩ := ok_of_bind (Option.some.inj h)
    cases h
    have fits₂ := T.fits fits₁ (Cursor.passes_plainSymbol? hsign) (by decide)
    obtain ⟨q, hq, hvalue, hnext⟩ := Cursor.assignment?_of_equals (T.skipType_cursor hc hdepth)
      (T.name_cursor fits hname) (T.place position)
      ((keeps_symbolEquals? ':').missed T fits₁ ((keeps_plainSymbol? '=').sealed hsign) hcolon)
      ((keeps_plainSymbol? '=').found T fits₁ hsign) (T.expression_cursor _ fits₂ he hp)
    rw [hq]
    exact congrArg (some ∘ Except.ok) (Parsed.ext hvalue hnext)
  · cases h

/-- Where no assignment starts, none starts in the other text: a line end ends the search. -/
theorem assignment?_cursor_none (position : Nat) (hc : T.Fits c) (hdepth : c.depth = 0)
    (h : c.assignment? position = none) :
    (T.cursor c).assignment? (T.place position) = none := by
  obtain ⟨fits, htype⟩ := T.fits_skipType hc hdepth
  unfold Cursor.assignment? at h
  split at h
  · rename_i e he
    obtain ⟨e', he'⟩ := T.name_cursor_error fits (.inl htype) he
    exact Cursor.assignment?_none_of_error (T.skipType_cursor hc hdepth) he' _
  rename_i name hname
  have h₁ := Cursor.turns_name _ name hname
  have fits₁ := T.fits fits h₁ (by decide)
  have hs : name.next.Sealed := .inl (h₁.depth_eq.trans htype)
  split at h
  · cases h
  rename_i hcolon
  split at h
  · cases h
  rename_i hequals
  exact Cursor.assignment?_none_of_name (T.skipType_cursor hc hdepth) (T.name_cursor fits hname) _
    ((keeps_symbolEquals? ':').missed T fits₁ hs hcolon)
    ((keeps_plainSymbol? '=').missed T fits₁ hs hequals)

/-! ## Statements -/

/-- **A statement moves** with its text. -/
theorem statement_cursor (hc : T.Fits c) (hdepth : c.depth = 0) {p : Parsed c Statement}
    (h : c.statement = .ok p) :
    (T.cursor c).statement = .ok (T.parsed (Statement.relocated T.place) p) := by
  have hpasses := c.turns_statement p h
  have hp : p.next.Sealed := .inl (hpasses.depth_eq.trans hdepth)
  have hposition : (T.cursor c).position = T.place c.position := by
    obtain ⟨l, hl⟩ := hpasses.pop?
    exact T.position_cursor hc hl
  have keyword {w : String} (hnone : c.keyword? w = none) : (T.cursor c).keyword? w = none :=
    (keeps_keyword? w).missed T hc (.inl hdepth) hnone
  have declared {w : String} {q : Parsed c Unit} (hq : c.keyword? w = some q) (kind : DeclKind)
      {s : Parsed q.next Statement} (hs : q.next.declaration kind c.position = .ok s)
      (hp : s.next.Sealed) : Cursor.declaration (T.parsed id q).next kind (T.place c.position) =
        .ok (T.parsed (Statement.relocated T.place) s) := by
    have h₁ := Cursor.passes_keyword? hq
    exact T.declaration_cursor kind _ (T.fits hc h₁ (by decide)) (h₁.depth_eq.trans hdepth) hs hp
  unfold Cursor.statement at h ⊢
  dsimp only at h ⊢
  rw [hposition]
  split at h
  · rename_i q hq
    obtain ⟨value, hvalue, h⟩ := ok_of_bind h
    cases h
    have hvalue' : Cursor.returned (T.parsed id q).next =
        .ok (T.parsed (Returned.relocated T.place) value) :=
      T.returned_cursor (T.fits hc (Cursor.passes_keyword? hq) (by decide)) hvalue hp
    rw [(keeps_keyword? "return").found T hc hq]
    exact bind_of_ok hvalue' _
  rename_i hreturn
  rw [keyword hreturn]
  dsimp only
  split at h
  · rename_i q hq
    obtain ⟨s, hs, h⟩ := ok_of_bind h
    cases h
    have hs' := declared hq _ hs hp
    rw [(keeps_keyword? "var").found T hc hq]
    exact bind_of_ok hs' _
  rename_i hvar
  rw [keyword hvar]
  dsimp only
  split at h
  · rename_i q hq
    obtain ⟨s, hs, h⟩ := ok_of_bind h
    cases h
    have hs' := declared hq _ hs hp
    rw [(keeps_keyword? "const").found T hc hq]
    exact bind_of_ok hs' _
  rename_i hconst
  rw [keyword hconst]
  dsimp only
  split at h
  · rename_i q hq
    obtain ⟨s, hs, h⟩ := ok_of_bind h
    cases h
    have h₁ := (Cursor.passes_symbol? hq).opened
    have hs' : Cursor.tuple (T.parsed id q).opened.next (T.place c.position) =
        .ok (T.parsed (Statement.relocated T.place) s) :=
      T.tuple_cursor _ (T.fits hc h₁ (by decide)) h₁.depth_pos hs hp
    rw [(keeps_symbol? '[').found T hc hq]
    exact bind_of_ok hs' _
  rename_i htuple
  rw [(keeps_symbol? '[').missed T hc (.inl hdepth) htuple]
  dsimp only
  split at h
  · rename_i s hs
    subst h
    rw [T.assignment?_cursor _ hc hdepth hs hp]
  · rename_i hassignment
    obtain ⟨e, he, h⟩ := ok_of_bind h
    cases h
    rw [T.assignment?_cursor_none _ hc hdepth hassignment]
    exact bind_of_ok (T.expression_cursor c hc he hp) _

/-! ## Scripts -/

/-- The place behind the text. -/
def beyond : Cursor := ⟨T.rest [], 0, T.finish⟩

/-- Outside of brackets every lexeme counts, line ends too. -/
theorem rest_cons {l : Lexeme} {r : List Lexeme} {fin : Nat} (hc : T.Fits ⟨l :: r, 0, fin⟩) :
    T.rest (l :: r) = T.lexeme l :: T.rest r := by
  have hskip := T.skip_cons hc (l := l) (r := r) rfl
  exact hskip

theorem fits_tail {l : Lexeme} {r : List Lexeme} {d fin : Nat} (hc : T.Fits ⟨l :: r, d, fin⟩)
    (hl : l.token.nest = 0) : T.Fits ⟨r, d, fin⟩ := by
  refine T.fits_suffix hc (List.suffix_cons l r) ?_
  simp [Cursor.level, hl]

/-- Separators end where they end in the text, or behind it if only separators are left. -/
theorem dropWhile_rest {ls : List Lexeme} {fin : Nat} (hc : T.Fits ⟨ls, 0, fin⟩) :
    (T.rest ls).dropWhile (fun l => l.token == .newline || l.token == .symbol ';') =
      if ls.dropWhile (fun l => l.token == .newline || l.token == .symbol ';') = [] then
        (T.rest []).dropWhile fun l => l.token == .newline || l.token == .symbol ';'
      else T.rest (ls.dropWhile fun l => l.token == .newline || l.token == .symbol ';') := by
  induction ls with
  | nil => rfl
  | cons l r ih =>
    have hrest := T.rest_cons hc
    rw [hrest, List.dropWhile_cons, List.dropWhile_cons, T.token]
    by_cases hseparator : (l.token == .newline || l.token == .symbol ';') = true
    · rw [if_pos hseparator, if_pos hseparator]
      refine ih (T.fits_tail hc ?_)
      rcases Bool.or_eq_true_iff.1 hseparator with h | h <;> rw [beq_iff_eq.1 h] <;> rfl
    · rw [if_neg hseparator, if_neg hseparator, if_neg (List.cons_ne_nil _ _), hrest]

theorem skipSeparators_cursor (hc : T.Fits c) (hdepth : c.depth = 0) :
    (T.cursor c).skipSeparators =
      if c.skipSeparators.rest = [] then T.beyond.skipSeparators
      else T.cursor c.skipSeparators := by
  obtain ⟨ls, d, fin⟩ := c
  obtain rfl : d = 0 := hdepth
  have hdrop := T.dropWhile_rest hc
  have hcursor : (T.cursor ⟨ls, 0, fin⟩).skipSeparators = ⟨(T.rest ls).dropWhile _, 0, T.finish⟩ :=
    rfl
  rw [hcursor, hdrop]
  unfold Cursor.skipSeparators
  dsimp only
  split <;> rfl

/-- A statement that ends in the text ends in the other one: a line end follows the text. -/
theorem endOfStatement_cursor (hc : T.Fits c) (hdepth : c.depth = 0)
    (h : c.endOfStatement = .ok ()) : (T.cursor c).endOfStatement = .ok () := by
  unfold Cursor.endOfStatement at h ⊢
  cases hskip : c.skip.rest with
  | nil =>
    have hhead : ∀ l ∈ (T.cursor c).skip.rest.head?, l.token = .newline :=
      T.skip_nil hc (.inl hdepth) hskip
    split
    · rfl
    · rename_i l hl
      exact if_pos (.inl (hhead l hl))
  | cons l r =>
    have hrest : (T.cursor c).skip.rest = T.lexeme l :: T.rest r := T.skip_cons hc hskip
    rw [hskip] at h
    rw [hrest]
    dsimp only [List.head?_cons] at h ⊢
    rw [T.token]
    split at h
    · rename_i hseparator
      exact if_pos hseparator
    · cases h

/-- Behind separators a cursor fits, outside of brackets as in front of them. -/
theorem fits_skipSeparators (hc : T.Fits c) : T.Fits c.skipSeparators := by
  obtain ⟨lines, hrest, hlines⟩ := c.skipSeparators_rest
  have hzero : nest lines = 0 := nest_eq_zero fun l hl => by
    rcases hlines l hl with h | h <;> rw [h] <;> rfl
  have hdepth : c.skipSeparators.depth = c.depth := rfl
  have hlevel : c.level = c.skipSeparators.level := by
    rw [Cursor.level, Cursor.level, hdepth, hrest, nest_append, hzero, Int.zero_add]
  exact T.fits_suffix hc ⟨lines, hrest.symm⟩ (Int.le_of_eq hlevel)

/-- **The statements of a text** are those of the other text, in front of the ones behind it. -/
theorem statements_cursor {ps : List Passage} (h : c.Reads ps) (hc : T.Fits c)
    (hdepth : c.depth = 0) :
    (T.cursor c).statements =
      T.beyond.statements.map (ps.map (·.statement.relocated T.place) ++ ·) := by
  induction h with
  | @done c hnil =>
    have hseparators := T.skipSeparators_cursor hc hdepth
    rw [if_pos hnil] at hseparators
    rw [Cursor.statements_of_skipSeparators hseparators]
    cases T.beyond.statements <;> rfl
  | @cons c s ps hne hs hend more ih =>
    have hseparators := T.skipSeparators_cursor hc hdepth
    rw [if_neg hne] at hseparators
    have fits := T.fits_skipSeparators hc
    have hpasses := Cursor.turns_statement _ s hs
    have fits₁ := T.fits fits hpasses (by decide)
    have hdepth₁ : s.next.depth = 0 := hpasses.depth_eq.trans hdepth
    have hs' := T.statement_cursor fits hdepth hs
    have hend' := T.endOfStatement_cursor fits₁ hdepth₁ hend
    have hmore := ih fits₁ hdepth₁
    have hne' : (T.cursor c.skipSeparators).rest ≠ [] :=
      List.ne_nil_of_length_pos (Nat.zero_lt_of_lt (T.length_lt s.later))
    rw [Cursor.statements_of hseparators hne' hs' hend']
    refine (congrArg (Except.map _) hmore).trans ?_
    cases T.beyond.statements <;> rfl

end Relocation

end BarScript
