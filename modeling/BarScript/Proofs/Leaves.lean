import BarScript.Proofs.Operators

/-!
# Literals, names and calls

The expressions that need no parentheses anywhere. A name is as many words with points between them
as touch, and a call is a name that a parenthesis touches.
-/

namespace BarScript

open Text (byteSize)
open Token (lexemes lexemes_word lexemes_mark isWord endsWord)

/-! ## Names -/

/-- A name, with or without points, that does not begin with a keyword. -/
def IsDotted (n : String) : Prop :=
  ∃ (w : List Char) (ws : List (List Char)), isWord w = true ∧ String.ofList w ∉ keywords ∧
    (∀ v ∈ ws, isWord v = true) ∧ n.toList = w ++ ws.flatMap ('.' :: ·)

theorem IsDotted.of_word {n : String} (hn : isWord n.toList = true) (hkeyword : n ∉ keywords) :
    IsDotted n :=
  ⟨n.toList, [], hn, by rwa [String.ofList_toList], by simp, by simp⟩

theorem endsWord_members (ws : List (List Char)) {more : List Char} (hmore : endsWord more) :
    endsWord (ws.flatMap ('.' :: ·) ++ more) := by
  have hpoint : Token.continuesWord '.' = false := by decide
  cases ws with
  | nil => exact hmore
  | cons v ws =>
    rintro _ ⟨⟩
    exact hpoint

theorem lexemes_member {v : List Char} (hv : isWord v = true) (s : Nat) (more : List Char) :
    lexemes s ('.' :: (v ++ more)) =
      ⟨.symbol '.', '.', s, s + 1⟩ :: lexemes (s + 1) (v ++ more) := by
  cases v with
  | nil => cases hv
  | cons c cs =>
    rw [isWord, Bool.and_eq_true] at hv
    exact Token.lexemes_point hv.1 s _

/-- What may follow a name: no member and no equals sign. -/
structure EndsName (more : List Char) : Prop where
  ends : endsWord more
  no_member (s : Nat) : ∀ l ∈ (lexemes s more).head?, l.token ≠ .symbol '.'
  no_equals (fin d s : Nat) : (Cursor.before fin d s more).plainSymbol? '=' = none

/-- The words behind a name, up to what is no member. -/
theorem members_lexemes {ws : List (List Char)} (hws : ∀ v ∈ ws, isWord v = true)
    {more : List Char} (hmore : EndsName more) (name : String) (s : Nat) :
    ∃ s', members name s (lexemes s (ws.flatMap ('.' :: ·) ++ more)) =
      (String.ofList (name.toList ++ ws.flatMap ('.' :: ·)), s', lexemes s' more) := by
  induction ws generalizing name s with
  | nil =>
    refine ⟨s, ?_⟩
    rw [List.flatMap_nil, List.nil_append, List.append_nil, String.ofList_toList]
    unfold members
    split
    · rename_i heq
      have hhead := hmore.no_member s
      rw [heq] at hhead
      exact absurd rfl (hhead _ rfl)
    · rfl
  | cons v ws ih =>
    obtain ⟨hv, hws⟩ := List.forall_mem_cons.1 hws
    obtain ⟨s', hmembers⟩ := ih hws (name ++ "." ++ String.ofList v) (s + 1 + byteSize v)
    obtain ⟨first, hword⟩ := lexemes_word hv (endsWord_members ws hmore.ends) (s + 1)
    refine ⟨s', ?_⟩
    rw [List.flatMap_cons, List.append_assoc, List.cons_append, lexemes_member hv, hword, members,
      if_pos ⟨rfl, rfl⟩, hmembers]
    simp

/-- A name is a word and its members. -/
theorem IsDotted.lexemes_name {n : String} (hn : IsDotted n) {more : List Char}
    (hmore : EndsName more) (s : Nat) :
    ∃ w first j r s', lexemes s (n.toList ++ more) = ⟨.word w, first, s, j⟩ :: r ∧
      w ∉ keywords ∧ members w j r = (n, s', lexemes s' more) ∧
      ∀ fin d, (⟨r, d, fin⟩ : Cursor).plainSymbol? '=' = none := by
  obtain ⟨w, ws, hw, hkeyword, hws, hn⟩ := hn
  obtain ⟨first, hword⟩ := lexemes_word hw (endsWord_members ws hmore.ends) s
  obtain ⟨s', hmembers⟩ := members_lexemes hws hmore (String.ofList w) (s + byteSize w)
  rw [String.toList_ofList, ← hn, String.ofList_toList] at hmembers
  refine ⟨_, first, _, _, s', ?_, hkeyword, hmembers, fun fin d => ?_⟩
  · rw [hn, List.append_assoc, hword]
  · cases ws with
    | nil => exact hmore.no_equals fin d _
    | cons v ws =>
      rw [List.flatMap_cons, List.append_assoc, List.cons_append,
        lexemes_member (hws v List.mem_cons_self), Cursor.plainSymbol?_cons (by rintro ⟨⟩), if_neg]
      rintro ⟨⟨⟩, -⟩

theorem MayFollow.endsName {place : Tightness} {cs : List Char} (h : MayFollow place cs) :
    EndsName cs where
  ends := h.ends.1
  no_member s := (h.head s).no_member
  no_equals fin d s := (h.head s).equals_none d fin

theorem EndsName.call (cs : List Char) : EndsName ('(' :: cs) where
  ends := by
    rintro _ ⟨⟩
    decide
  no_member s := by
    rw [lexemes_mark (by decide)]
    rintro _ ⟨⟩ ⟨⟩
  no_equals fin d s := by
    rw [Cursor.before_mark (by decide), Cursor.plainSymbol?_cons (by rintro ⟨⟩), if_neg]
    rintro ⟨⟨⟩, -⟩

/-- A word names an argument only if an equals sign follows. -/
theorem argName?_word {w : String} (hw : w ∉ keywords) {f : Char} {i j : Nat} {r : List Lexeme}
    {d fin : Nat} (h : (⟨r, d, fin⟩ : Cursor).plainSymbol? '=' = none) :
    (⟨⟨.word w, f, i, j⟩ :: r, d, fin⟩ : Cursor).argName? = none := by
  rw [Cursor.argName?, Cursor.name, Cursor.pop?_cons (by rintro ⟨⟩)]
  dsimp only
  rw [if_neg hw]
  dsimp only [Parsed.map]
  rw [h]
  rfl

theorem argName?_equals {w : String} (hw : w ∉ keywords) {f : Char} {i j : Nat} {r : List Lexeme}
    {d fin : Nat} {q : Parsed ⟨r, d, fin⟩ Unit}
    (h : (⟨r, d, fin⟩ : Cursor).plainSymbol? '=' = some q) :
    ∃ p, (⟨⟨.word w, f, i, j⟩ :: r, d, fin⟩ : Cursor).argName? = some p ∧ p.value = w ∧
      p.next = q.next := by
  rw [Cursor.argName?, Cursor.name, Cursor.pop?_cons (by rintro ⟨⟩)]
  dsimp only
  rw [if_neg hw]
  dsimp only [Parsed.map]
  rw [h]
  exact ⟨_, rfl, rfl, rfl⟩

/-- The first word of a name. -/
theorem Starts.of_name {place : Tightness} {w : String} (hw : w ∉ keywords) {f : Char} {i j : Nat}
    {r : List Lexeme} {d fin : Nat} (h : (⟨r, d, fin⟩ : Cursor).plainSymbol? '=' = none) :
    Starts place ⟨⟨.word w, f, i, j⟩ :: r, d, fin⟩ := by
  refine .of_word (argName?_word hw h) fun _ => ?_
  rintro rfl
  exact hw (by decide)

/-! ## Expressions -/

namespace Reads

/-- What is read as a primary. -/
theorem of_primary {cs : List Char} {e : Expr}
    (h : ∀ fin d s more, MayFollow .bracket more → ∃ l r, lexemes s (cs ++ more) = l :: r ∧
      Starts .bracket ⟨l :: r, d, fin⟩ ∧ ∃ p s', primary ⟨l :: r, d, fin⟩ = .ok p ∧
        p.value.unplaced = e.unplaced ∧ p.next = .before fin d s' more) :
    Reads .bracket cs e := by
  intro fin d s more hmore
  obtain ⟨l, r, hlexemes, hstarts, p, s', hp, hvalue, hnext⟩ := h fin d s more hmore
  rw [Cursor.before, hlexemes]
  exact ⟨hstarts, p, s', bracketed_of_primary hp, hvalue, hnext⟩

theorem number {l : Literal} (hl : l.negative = false) : Reads .bracket l.print (.number l) := by
  refine of_primary fun fin d s more hmore => ?_
  obtain ⟨first, hlexemes⟩ := Token.lexemes_number hl hmore.ends.2 s
  exact ⟨_, _, hlexemes, .of_literal (by rintro ⟨⟩) (by rintro _ ⟨⟩) (by rintro _ - ⟨⟩), _, _,
    primary_number l, rfl, rfl⟩

theorem text (t : String) : Reads .bracket (quoteText t) (.text t) := by
  refine of_primary fun fin d s more hmore => ?_
  obtain ⟨first, hlexemes⟩ := Token.lexemes_text t more s
  exact ⟨_, _, hlexemes, .of_literal (by rintro ⟨⟩) (by rintro _ ⟨⟩) (by rintro _ - ⟨⟩), _, _,
    primary_text t, rfl, rfl⟩

theorem flag (b : Bool) : Reads .bracket (if b then "true" else "false").toList (.flag b) := by
  refine of_primary fun fin d s more hmore => ?_
  have hw : isWord (if b then "true" else "false").toList = true := by cases b <;> decide
  have hkeyword : (if b then "true" else "false") ∈ keywords := by cases b <;> decide
  have hnot : (if b then "true" else "false") ≠ "not" := by cases b <;> decide
  obtain ⟨first, hlexemes⟩ := lexemes_word hw hmore.ends.1 s
  rw [String.ofList_toList] at hlexemes
  exact ⟨_, _, hlexemes, .of_word (argName?_keyword hkeyword) fun _ => hnot, _, _, primary_flag b,
    rfl, rfl⟩

theorem dotted {n : String} (hn : IsDotted n) (position : Nat) :
    Reads .bracket n.toList (if n = "na" then .na else .name n position) := by
  refine of_primary fun fin d s more hmore => ?_
  obtain ⟨w, first, j, r, s', hlexemes, hw, hmembers, hequals⟩ := hn.lexemes_name hmore.endsName s
  have happly :
      (⟨(members w j r).2.2, d, fin⟩ : Cursor).touches (members w j r).2.1 '(' = false := by
    rw [hmembers]
    exact (hmore.head s').call_none d fin s'
  obtain ⟨p, hp, hvalue, hnext⟩ := primary_word (f := first) (i := s) hw happly
  rw [hmembers] at hvalue hnext
  refine ⟨_, _, hlexemes, Starts.of_name hw (hequals fin d), p, s', hp, ?_, hnext⟩
  dsimp only at hvalue
  rw [hvalue]
  split
  · rfl
  · rfl

theorem name {n : String} (hn : IsDotted n) (hna : n ≠ "na") (position : Nat) :
    Reads .bracket n.toList (.name n position) := by
  have h := dotted hn position
  rwa [if_neg hna] at h

theorem na : Reads .bracket "na".toList .na :=
  dotted (.of_word (by decide) (by decide)) 0

end Reads

/-! ## Arguments -/

/-- The text is read as an argument, whatever may follow. -/
def ReadsArg (cs : List Char) (a : Arg Expr) : Prop :=
  ∀ (fin d s : Nat) (more : List Char), MayFollow .ternary more →
    (Cursor.before fin d s (cs ++ more)).symbol? ')' = none ∧
      ∃ p s', argument (.before fin d s (cs ++ more)) = .ok p ∧ p.value.name = a.name ∧
        p.value.value.unplaced = a.value.unplaced ∧ p.next = .before fin d s' more

/-- The text in front of a closing parenthesis is read as the arguments. -/
def ReadsArgs (cs : List Char) (as : List (Arg Expr)) : Prop :=
  ∀ (fin d s : Nat) (more : List Char), ∃ p s',
    arguments (.before fin (d + 1) s (cs ++ ')' :: more)) = .ok p ∧
      Arg.allUnplaced p.value = Arg.allUnplaced as ∧ p.next = .before fin d s' more

namespace ReadsArg

variable {cs : List Char} {e : Expr}

theorem positional (h : Reads .ternary cs e) (position : Nat) :
    ReadsArg cs ⟨none, e, position⟩ := by
  intro fin d s more hmore
  have hvalue := h fin d s more hmore
  obtain ⟨p, s', hread, hp, hnext⟩ := hvalue.read
  exact ⟨hvalue.no_closing, _, s', argument_positional hvalue.no_name hread, rfl, hp, hnext⟩

/-- An argument by name, whose name is a word. -/
theorem named {n : String} (hn : isWord n.toList = true) (hkeyword : n ∉ keywords)
    (h : Reads .ternary cs e) (position : Nat) :
    ReadsArg (n.toList ++ " = ".toList ++ cs) ⟨some n, e, position⟩ := by
  intro fin d s more hmore
  have htext : n.toList ++ " = ".toList ++ cs ++ more =
      n.toList ++ ' ' :: '=' :: ' ' :: (cs ++ more) := by
    simp only [String.reduceToList, List.append_assoc, List.cons_append, List.nil_append]
  have hends : endsWord (' ' :: '=' :: ' ' :: (cs ++ more)) := by
    rintro _ ⟨⟩
    decide
  obtain ⟨first, hlexemes⟩ := lexemes_word hn hends s
  rw [String.ofList_toList] at hlexemes
  rw [htext, Cursor.before, hlexemes]
  obtain ⟨⟨u, next, hlater⟩, hequals, rfl⟩ :=
    Cursor.plainSymbol?_equals fin d (s + byteSize n.toList) (cs ++ more)
  obtain ⟨⟨name, next, hlater'⟩, hname, hn, rfl⟩ :=
    argName?_equals (f := first) (i := s) (j := s + byteSize n.toList) hkeyword hequals
  obtain ⟨p, s', hread, hp, hnext⟩ := (h fin d _ more hmore).read
  refine ⟨?_, _, s', argument_named hname hread, congrArg some hn, hp, hnext⟩
  rw [Cursor.symbol?, Cursor.token?_cons (by rintro ⟨⟩), if_neg (by rintro ⟨⟩)]

end ReadsArg

namespace ReadsArgs

theorem nil : ReadsArgs [] [] := by
  intro fin d s more
  obtain ⟨⟨u, next, hlater⟩, hclosing, rfl⟩ :=
    Cursor.symbol?_mark (c := ')') (by decide) fin (d + 1) s more
  exact ⟨_, _, arguments_nil hclosing, rfl, rfl⟩

theorem singleton {cs : List Char} {a : Arg Expr} (h : ReadsArg cs a) : ReadsArgs cs [a] := by
  intro fin d s more
  obtain ⟨hclosing, ⟨⟨name, value, position⟩, next, hlater⟩, s', hread, hname, hvalue, rfl⟩ :=
    h fin (d + 1) s (')' :: more) (.closing _ (by decide) more)
  have hcomma : (Cursor.before fin (d + 1) s' (')' :: more)).symbol? ',' = none := by
    rw [Cursor.before_mark (by decide), Cursor.symbol?, Cursor.token?_cons (by rintro ⟨⟩),
      if_neg (by rintro ⟨⟩)]
  obtain ⟨⟨u, next, hlater'⟩, hend, rfl⟩ :=
    Cursor.expectClosing_mark (c := ')') (by decide) fin d s' more
  refine ⟨_, _, arguments_last hclosing hread hcomma hend, ?_, rfl⟩
  dsimp only at hname hvalue
  simp only [Parsed.andThen, Parsed.map, Arg.allUnplaced, hname, hvalue]

theorem cons {cs cs' : List Char} {a : Arg Expr} {as : List (Arg Expr)} (h : ReadsArg cs a)
    (h' : ReadsArgs cs' as) : ReadsArgs (cs ++ ", ".toList ++ cs') (a :: as) := by
  intro fin d s more
  have htext : cs ++ ", ".toList ++ cs' ++ ')' :: more =
      cs ++ ',' :: ' ' :: (cs' ++ ')' :: more) := by
    simp only [String.reduceToList, List.append_assoc, List.cons_append, List.nil_append]
  rw [htext]
  obtain ⟨hclosing, ⟨⟨name, value, position⟩, next, hlater⟩, s₁, hread, hname, hvalue, rfl⟩ :=
    h fin (d + 1) s _ (.closing (c := ',') _ (by decide) (' ' :: (cs' ++ ')' :: more)))
  have hmark := Cursor.symbol?_mark (c := ',') (by decide) fin (d + 1) s₁
    (' ' :: (cs' ++ ')' :: more))
  rw [Cursor.before_blank] at hmark
  obtain ⟨⟨u, next, hlater'⟩, hcomma, rfl⟩ := hmark
  obtain ⟨⟨as', next, hlater''⟩, s₂, hread', hvalue', rfl⟩ := h' fin d (s₁ + 2) more
  refine ⟨_, s₂, arguments_cons hclosing hread hcomma hread', ?_, rfl⟩
  dsimp only at hname hvalue hvalue'
  simp only [Parsed.andThen, Parsed.map, Arg.allUnplaced, hname, hvalue, hvalue']

end ReadsArgs

theorem Reads.call {f : String} (hf : IsDotted f) {cs : List Char} {as : List (Arg Expr)}
    (h : ReadsArgs cs as) (position : Nat) :
    Reads .bracket (f.toList ++ '(' :: cs ++ [')']) (.call ⟨f, as, position⟩) := by
  refine of_primary fun fin d s more hmore => ?_
  rw [List.append_assoc, List.append_assoc, List.cons_append, List.singleton_append]
  obtain ⟨w, first, j, r, s', hlexemes, hw, hmembers, hequals⟩ := hf.lexemes_name (.call _) s
  have hbracket : (members w j r).2.2 = ⟨.symbol '(', '(', (members w j r).2.1, s' + 1⟩ ::
      lexemes (s' + 1) (cs ++ ')' :: more) := by
    rw [hmembers]
    exact lexemes_mark (by decide) _ _
  obtain ⟨⟨as', next, hlater⟩, s'', hread, hvalue, rfl⟩ := h fin d (s' + 1) more
  obtain ⟨p, hp, hcall, hnext⟩ := primary_call (f := first) (i := s) hw hbracket hread
  refine ⟨_, _, hlexemes, Starts.of_name hw (hequals fin d), p, s'', hp, ?_, hnext⟩
  dsimp only at hvalue
  rw [hcall, hmembers]
  simp only [Expr.unplaced, hvalue]

end BarScript
