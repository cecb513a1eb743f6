import BarScript.Proofs.Lexing
import BarScript.Proofs.Standing

/-!
# A line end ends every token

Behind a text without open quotes, a line end changes nothing about the lexemes of the text: the
lexemes of the whole are those of the text, the line end, and those of what follows
(`Token.lexemes_append_line`). Lexemes move with the start of their text (`Token.lexemes_moved`).
-/

namespace BarScript

open Text (byteSize)

theorem takeWhile_append_cons {p : Char → Bool} {w : Char} (hp : p w = false)
    (cs more : List Char) : (cs ++ w :: more).takeWhile p = cs.takeWhile p := by
  induction cs with
  | nil => simp [hp]
  | cons c cs ih => simp only [List.cons_append, List.takeWhile_cons, ih]

/-! ## Numbers -/

namespace Literal

/-- The sign of an exponent, and how many characters it has. -/
def signAhead : List Char → Bool × Nat
  | '-' :: _ => (true, 1)
  | '+' :: _ => (false, 1)
  | _ => (false, 0)

/-- The digits behind a point, and how many characters the point has. -/
def fractionAhead : List Char → List Char × Nat
  | '.' :: r => (r.takeWhile Char.isDigit, 1)
  | _ => ([], 0)

theorem exponentAhead_cons (e : Char) (cs : List Char) :
    exponentAhead (e :: cs) =
      if e = 'e' ∨ e = 'E' then
        let ds := (cs.drop (signAhead cs).2).takeWhile Char.isDigit
        if ds.isEmpty then (0, 0)
        else (if (signAhead cs).1 then -(digitsValue ds : Int) else digitsValue ds,
          1 + (signAhead cs).2 + ds.length)
      else (0, 0) := rfl

theorem front?_eq (cs : List Char) :
    front? cs =
      let whole := cs.takeWhile Char.isDigit
      let f := fractionAhead (cs.drop whole.length)
      if (whole ++ f.1).isEmpty then none
      else
        let size := (whole ++ f.1).length + f.2
        let e := exponentAhead (cs.drop size)
        some (⟨false, digitsValue (whole ++ f.1), e.1 - f.1.length⟩, size + e.2) := rfl

theorem signAhead_le (cs : List Char) : (signAhead cs).2 ≤ cs.length := by
  unfold signAhead
  split <;> simp

theorem fractionAhead_le (cs : List Char) :
    (fractionAhead cs).1.length + (fractionAhead cs).2 ≤ cs.length := by
  unfold fractionAhead
  split
  · exact Nat.succ_le_succ (List.takeWhile_prefix _).length_le
  · exact Nat.zero_le _

theorem exponentAhead_le (cs : List Char) : (exponentAhead cs).2 ≤ cs.length := by
  cases cs with
  | nil => exact Nat.le_refl _
  | cons e cs =>
    have hsign := signAhead_le cs
    have hdigits : ((cs.drop (signAhead cs).2).takeWhile Char.isDigit).length ≤
        cs.length - (signAhead cs).2 :=
      List.length_drop ▸ (List.takeWhile_prefix _).length_le
    rw [exponentAhead_cons]
    dsimp only
    split
    · split
      · exact Nat.zero_le _
      · simp only [List.length_cons]
        omega
    · exact Nat.zero_le _

theorem front?_le {cs : List Char} {l : Literal} {n : Nat} (h : front? cs = some (l, n)) :
    n ≤ cs.length := by
  have hwhole : (cs.takeWhile Char.isDigit).length ≤ cs.length :=
    (List.takeWhile_prefix _).length_le
  have hfraction := fractionAhead_le (cs.drop (cs.takeWhile Char.isDigit).length)
  rw [front?_eq] at h
  dsimp only at h
  split at h
  · cases h
  · cases h
    have hexponent := exponentAhead_le (cs.drop ((cs.takeWhile Char.isDigit ++
      (fractionAhead (cs.drop (cs.takeWhile Char.isDigit).length)).1).length +
      (fractionAhead (cs.drop (cs.takeWhile Char.isDigit).length)).2))
    simp only [List.length_drop, List.length_append] at hfraction hexponent ⊢
    omega

section

variable {w : Char} (hw : Text.isBlank w = true) (cs more : List Char)
include hw

/-- A blank is no part of a number. -/
theorem apart_of_isBlank : w.isDigit = false ∧ w ≠ '-' ∧ w ≠ '+' ∧ w ≠ '.' ∧ w ≠ 'e' ∧ w ≠ 'E' :=
  Token.of_isBlank (p := fun w => w.isDigit = false ∧ w ≠ '-' ∧ w ≠ '+' ∧ w ≠ '.' ∧ w ≠ 'e' ∧
    w ≠ 'E') (by decide) hw

theorem signAhead_append_blank : signAhead (cs ++ w :: more) = signAhead cs := by
  obtain ⟨-, hminus, hplus, -⟩ := apart_of_isBlank hw
  cases cs with
  | nil => simp [signAhead, hminus, hplus]
  | cons c cs =>
    by_cases hminus : c = '-'
    · subst hminus; rfl
    by_cases hplus : c = '+'
    · subst hplus; rfl
    · simp [signAhead, hminus, hplus]

theorem fractionAhead_append_blank : fractionAhead (cs ++ w :: more) = fractionAhead cs := by
  obtain ⟨hdigit, -, -, hpoint, -⟩ := apart_of_isBlank hw
  cases cs with
  | nil => simp [fractionAhead, hpoint]
  | cons c cs =>
    by_cases hpoint : c = '.'
    · subst hpoint
      simp only [List.cons_append, fractionAhead, takeWhile_append_cons (p := Char.isDigit) hdigit]
    · simp [fractionAhead, hpoint]

theorem exponentAhead_append_blank : exponentAhead (cs ++ w :: more) = exponentAhead cs := by
  obtain ⟨hdigit, -, -, -, he, hE⟩ := apart_of_isBlank hw
  cases cs with
  | nil =>
    rw [List.nil_append, exponentAhead_cons, if_neg (not_or.2 ⟨he, hE⟩)]
    rfl
  | cons e cs =>
    rw [List.cons_append, exponentAhead_cons, exponentAhead_cons, signAhead_append_blank hw,
      List.drop_append_of_le_length (signAhead_le cs),
      takeWhile_append_cons (p := Char.isDigit) hdigit]

/-- **A blank ends every number.** -/
theorem front?_append_blank : front? (cs ++ w :: more) = front? cs := by
  obtain ⟨hdigit, -⟩ := apart_of_isBlank hw
  have hwhole : (cs.takeWhile Char.isDigit).length ≤ cs.length :=
    (List.takeWhile_prefix _).length_le
  have hfraction := fractionAhead_le (cs.drop (cs.takeWhile Char.isDigit).length)
  rw [List.length_drop] at hfraction
  rw [front?_eq, front?_eq, takeWhile_append_cons (p := Char.isDigit) hdigit]
  dsimp only
  rw [List.drop_append_of_le_length hwhole, fractionAhead_append_blank hw,
    List.drop_append_of_le_length, exponentAhead_append_blank hw]
  rw [List.length_append]
  omega

end

end Literal

/-! ## Tokens -/

namespace Token

theorem quoted?_cons {q c : Char} (hc : c ≠ '\\') (cs : List Char) :
    quoted? q (c :: cs) =
      if c = q then some ([], 1)
      else if c = '\n' then none
      else (quoted? q cs).map fun (t, n) => (c :: t, n + 1) := by
  rw [quoted?]
  · exact fun h => absurd h hc
  · exact fun _ _ h => absurd h hc

/-- Not a backslash, as the cases of `quoted?` say it. -/
theorem ne_backslash {c : Char} {cs : List Char} (h₁ : c = '\\' → cs = [] → False)
    (h₂ : ∀ d ds, c = '\\' → cs = d :: ds → False) : c ≠ '\\' := fun hc => by
  cases cs with
  | nil => exact h₁ hc rfl
  | cons d ds => exact h₂ d ds hc rfl

/-- What stands behind a quoted text does not matter. -/
theorem quoted?_append {q : Char} {cs t : List Char} {n : Nat} (h : quoted? q cs = some (t, n))
    (more : List Char) : quoted? q (cs ++ more) = some (t, n) := by
  fun_induction quoted? q cs generalizing t n with
  | case1 => cases h
  | case2 => cases h
  | case3 c cs ih =>
    obtain ⟨⟨t', n'⟩, hquoted, heq⟩ := Option.map_eq_some_iff.1 h
    cases heq
    rw [List.cons_append, List.cons_append, quoted?, ih hquoted]
    rfl
  | case4 cs h₁ h₂ =>
    cases h
    rw [List.cons_append, quoted?_cons (ne_backslash h₁ h₂), if_pos rfl]
  | case5 => cases h
  | case6 c cs h₁ h₂ hquote hline ih =>
    obtain ⟨⟨t', n'⟩, hquoted, heq⟩ := Option.map_eq_some_iff.1 h
    cases heq
    rw [List.cons_append, quoted?_cons (ne_backslash h₁ h₂), if_neg hquote, if_neg hline,
      ih hquoted]
    rfl

/-- A quote in front of a text that it does not quote is a symbol. -/
theorem munch_quote {c : Char} (hc : c = '"' ∨ c = '\'') {cs : List Char}
    (h : quoted? c cs = none) : munch c cs = (some (.symbol c), 0) := by
  have hword : startsWord '"' = false ∧ startsWord '\'' = false := by decide
  rcases hc with rfl | rfl <;> simp [munch, Text.isBlank, hword, h]

/-- The first token of a text is the same with a line end behind the text. -/
theorem munch_append_line {c : Char} {cs : List Char}
    (h : (munch c cs).1 ≠ some (.symbol '"') ∧ (munch c cs).1 ≠ some (.symbol '\''))
    (more : List Char) : munch c (cs ++ '\n' :: more) = munch c cs := by
  have hcomment : (c = '/' ∧ (cs ++ '\n' :: more).head? = some '/') ↔
      (c = '/' ∧ cs.head? = some '/') := by
    cases cs <;> simp
  have hfront : Literal.front? (c :: (cs ++ '\n' :: more)) = Literal.front? (c :: cs) :=
    Literal.front?_append_blank (by decide) (c :: cs) more
  have hend : continuesWord '\n' = false := by decide
  have hquoted (hc : c = '"' ∨ c = '\'') :
      quoted? c (cs ++ '\n' :: more) = quoted? c cs := by
    cases hcs : quoted? c cs with
    | some t => exact quoted?_append hcs _
    | none =>
      rw [munch_quote hc hcs] at h
      rcases hc with rfl | rfl
      · exact absurd rfl h.1
      · exact absurd rfl h.2
  unfold munch
  rw [takeWhile_append_cons (p := (· != '\n')) rfl, takeWhile_append_cons hend, hfront]
  simp only [hcomment]
  by_cases hc : c = '"' ∨ c = '\''
  · rw [hquoted hc]
  · simp only [if_neg hc]

theorem munch_le (c : Char) (cs : List Char) : (munch c cs).2 ≤ cs.length := by
  have hfront {l : Literal} {n : Nat} (h : Literal.front? (c :: cs) = some (l, n)) :
      n - 1 ≤ cs.length := Nat.sub_le_of_le_add (Literal.front?_le h)
  have hquoted {t : List Char} {n : Nat} (h : quoted? c cs = some (t, n)) : n ≤ cs.length :=
    quoted?_le h
  have htakeWhile (p : Char → Bool) : (cs.takeWhile p).length ≤ cs.length :=
    (List.takeWhile_prefix p).length_le
  unfold munch
  dsimp only
  split
  · exact Nat.zero_le _
  split
  · exact Nat.zero_le _
  split
  · exact htakeWhile _
  split
  · exact htakeWhile _
  split
  · split
    · exact hfront ‹_›
    · exact Nat.zero_le _
  split
  · split
    · exact hquoted ‹_›
    · exact Nat.zero_le _
  · exact Nat.zero_le _

end Token

/-! ## Texts -/

/-- The lexeme of a text that starts `k` bytes later. -/
def Lexeme.moved (k : Nat) (l : Lexeme) : Lexeme :=
  { l with start := l.start + k, stop := l.stop + k }

namespace Token

theorem lexemes_of_none {c : Char} {cs : List Char} {n : Nat} (h : munch c cs = (none, n))
    (s : Nat) : lexemes s (c :: cs) = lexemes (s + byteSize (c :: cs.take n)) (cs.drop n) := by
  rw [lexemes, h]

/-- **Lexemes move** with the start of their text. -/
theorem lexemes_moved (k s : Nat) (cs : List Char) :
    lexemes (s + k) cs = (lexemes s cs).map (Lexeme.moved k) := by
  fun_induction lexemes s cs with
  | case1 => simp [lexemes]
  | case2 s c cs n stop more t hmunch ih =>
    rw [lexemes_of_munch hmunch, List.map_cons, Nat.add_right_comm]
    exact congrArg (_ :: ·) ih
  | case3 s c cs n stop more hmunch ih =>
    rw [lexemes_of_none hmunch, Nat.add_right_comm]
    exact ih

theorem lexemes_line (s : Nat) (cs : List Char) :
    lexemes s ('\n' :: cs) = ⟨.newline, '\n', s, s + 1⟩ :: lexemes (s + 1) cs :=
  lexemes_of_munch (t := .newline) (n := 0) (if_pos rfl) s

/-- The characters of a token and those behind it. -/
theorem byteSize_take_drop (s : Nat) (c : Char) (cs : List Char) (n : Nat) :
    s + byteSize (c :: cs.take n) + byteSize (cs.drop n) = s + byteSize (c :: cs) := by
  rw [Nat.add_assoc, ← Text.byteSize_append, List.cons_append, List.take_append_drop]

/-- **A line end stands between the lexemes** of two texts. -/
theorem lexemes_append_line {s : Nat} {cs : List Char} (h : ∀ l ∈ lexemes s cs, ¬ l.IsOpen)
    (more : List Char) :
    lexemes s (cs ++ '\n' :: more) =
      lexemes s cs ++ ⟨.newline, '\n', s + byteSize cs, s + byteSize cs + 1⟩ ::
        lexemes (s + byteSize cs + 1) more := by
  fun_induction lexemes s cs with
  | case1 s => exact lexemes_line s more
  | case2 s c cs n stop rest t hmunch ih =>
    obtain ⟨hclosed, hrest⟩ := List.forall_mem_cons.1 h
    have hn : n ≤ cs.length := by
      have := munch_le c cs
      rwa [hmunch] at this
    have hmunch' : munch c (cs ++ '\n' :: more) = (some t, n) := by
      rw [munch_append_line _ more, hmunch]
      rw [hmunch]
      exact ⟨fun ht => hclosed (.inl (Option.some.inj ht)),
        fun ht => hclosed (.inr (Option.some.inj ht))⟩
    rw [List.cons_append, lexemes_of_munch hmunch', List.take_append_of_le_length hn,
      List.drop_append_of_le_length hn, ih hrest, byteSize_take_drop]
    rfl
  | case3 s c cs n stop rest hmunch ih =>
    have hn : n ≤ cs.length := by
      have := munch_le c cs
      rwa [hmunch] at this
    have hmunch' : munch c (cs ++ '\n' :: more) = (none, n) := by
      rw [munch_append_line _ more, hmunch]
      rw [hmunch]
      exact ⟨by simp, by simp⟩
    rw [List.cons_append, lexemes_of_none hmunch', List.take_append_of_le_length hn,
      List.drop_append_of_le_length hn, ih h, byteSize_take_drop]

end Token

end BarScript
