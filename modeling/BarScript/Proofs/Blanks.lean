import BarScript.Proofs.LineEnd

/-!
# Blanks between tokens

A blank that is neither in a quoted text nor in a comment (`Token.Covered`) stands between two
tokens (`Token.cut_of_not_covered`). The lexemes in front of it do not depend on what follows it
(`Token.Cut.lexemes`), and a line end or a comment with its line end is one lexeme more
(`Token.IsBreak.lexemes`).
-/

namespace BarScript

open Text (byteSize isBlank)

namespace Token

section

variable (rest : List Char)

/-- In the text `front ++ rest`, the first character of `rest` belongs to a quoted text or to a
comment. -/
inductive Covered : List Char → Prop
  | inside {c : Char} {cs : List Char} {t : Option Token} {n : Nat}
      (h : munch c (cs ++ rest) = (t, n)) (hn : cs.length < n)
      (ht : t = none ∨ ∃ s, t = some (.text s)) : Covered (c :: cs)
  | behind {c : Char} {cs : List Char} {t : Option Token} {n : Nat}
      (h : munch c (cs ++ rest) = (t, n)) (hn : n ≤ cs.length) (more : Covered (cs.drop n)) :
      Covered (c :: cs)

/-- In the text `front ++ rest`, a token, a blank or a comment ends where `front` ends. -/
inductive Cut : List Char → Prop
  | nil : Cut []
  | cons {c : Char} {cs : List Char} {t : Option Token} {n : Nat}
      (h : munch c (cs ++ rest) = (t, n)) (hn : n ≤ cs.length) (more : Cut (cs.drop n)) :
      Cut (c :: cs)

end

theorem Cut.not_covered {front rest : List Char} (h : Cut rest front) : ¬ Covered rest front := by
  induction h with
  | nil => nofun
  | cons h hn more ih =>
    rintro (⟨h', hn', -⟩ | ⟨h', -, more'⟩)
    · cases h.symm.trans h'
      omega
    · cases h.symm.trans h'
      exact ih more'

theorem takeWhile_of_length_le {p : Char → Bool} {w : Char} {cs x : List Char}
    (h : ((cs ++ w :: x).takeWhile p).length ≤ cs.length) (y : List Char) :
    (cs ++ w :: y).takeWhile p = (cs ++ w :: x).takeWhile p := by
  induction cs with
  | nil =>
    have hnil : (w :: x).takeWhile p = [] := List.length_eq_zero_iff.1 (Nat.le_zero.1 h)
    cases hp : p w with
    | true => simp [hp] at hnil
    | false => simp [hp]
  | cons c cs ih =>
    simp only [List.cons_append, List.takeWhile_cons] at h ⊢
    cases hp : p c with
    | true =>
      rw [if_pos hp] at h
      rw [if_pos rfl, if_pos rfl, ih (Nat.le_of_succ_le_succ h)]
    | false => rfl

theorem quoted?_pos {q : Char} {cs t : List Char} {n : Nat} (h : quoted? q cs = some (t, n)) :
    0 < n := by
  fun_induction quoted? q cs generalizing t n with
  | case1 => cases h
  | case2 => cases h
  | case3 c cs ih =>
    obtain ⟨_, -, heq⟩ := Option.map_eq_some_iff.1 h
    cases heq
    exact Nat.succ_pos _
  | case4 =>
    cases h
    exact Nat.succ_pos _
  | case5 => cases h
  | case6 c cs _ _ _ _ ih =>
    obtain ⟨_, -, heq⟩ := Option.map_eq_some_iff.1 h
    cases heq
    exact Nat.succ_pos _

/-- A quoted text that ends in the front part of a text is quoted there. -/
theorem quoted?_of_append {q : Char} {cs x t : List Char} {n : Nat}
    (h : quoted? q (cs ++ x) = some (t, n)) (hn : n ≤ cs.length) : quoted? q cs = some (t, n) := by
  fun_induction quoted? q cs generalizing t n with
  | case1 => exact absurd (quoted?_pos h) (Nat.not_lt_of_le hn)
  | case2 =>
    cases x with
    | nil => exact h
    | cons d x =>
      obtain ⟨⟨t', n'⟩, hquoted, heq⟩ := Option.map_eq_some_iff.1 h
      cases heq
      simp only [List.length_cons, List.length_nil] at hn
      omega
  | case3 c cs ih =>
    obtain ⟨⟨t', n'⟩, hquoted, heq⟩ := Option.map_eq_some_iff.1 h
    cases heq
    rw [ih hquoted (Nat.le_of_add_le_add_right hn)]
    rfl
  | case4 cs h₁ h₂ =>
    rw [List.cons_append, quoted?_cons (ne_backslash h₁ h₂), if_pos rfl] at h
    exact h
  | case5 cs h₁ h₂ hquote =>
    rw [List.cons_append, quoted?_cons (ne_backslash h₁ h₂), if_neg hquote, if_pos rfl] at h
    exact h
  | case6 c cs h₁ h₂ hquote hline ih =>
    rw [List.cons_append, quoted?_cons (ne_backslash h₁ h₂), if_neg hquote, if_neg hline] at h
    obtain ⟨⟨t', n'⟩, hquoted, heq⟩ := Option.map_eq_some_iff.1 h
    cases heq
    rw [ih hquoted (Nat.le_of_succ_le_succ hn)]
    rfl

section

variable {w : Char} (hw : isBlank w = true)
include hw

/-- Only quoted texts and comments go on behind a blank. -/
theorem munch_over_blank {c : Char} {cs x : List Char} {t : Option Token} {n : Nat}
    (h : munch c (cs ++ w :: x) = (t, n)) (hn : cs.length < n) :
    t = none ∨ ∃ s, t = some (.text s) := by
  unfold munch at h
  split at h
  · cases h
    exact absurd hn (Nat.not_lt_zero _)
  split at h
  · cases h
    exact .inl rfl
  split at h
  · cases h
    exact .inl rfl
  split at h
  · cases h
    rw [takeWhile_append_cons (continuesWord_of_isBlank hw)] at hn
    exact absurd (List.takeWhile_prefix _).length_le (Nat.not_le_of_lt hn)
  split at h
  · rw [← List.cons_append, Literal.front?_append_blank hw] at h
    split at h
    · rename_i hfront
      cases h
      have hle := Literal.front?_le hfront
      simp only [List.length_cons] at hle
      omega
    · cases h
      exact absurd hn (Nat.not_lt_zero _)
  split at h
  · split at h
    · cases h
      exact .inr ⟨_, rfl⟩
    · cases h
      exact absurd hn (Nat.not_lt_zero _)
  · cases h
    exact absurd hn (Nat.not_lt_zero _)

/-- **A blank stands between two tokens** if no quoted text and no comment covers it. -/
theorem cut_of_not_covered : (front : List Char) → {rest : List Char} →
    ¬ Covered (w :: rest) front → Cut (w :: rest) front
  | [], _, _ => .nil
  | c :: cs, rest, h => by
    obtain ⟨t, n, hmunch⟩ : ∃ t n, munch c (cs ++ w :: rest) = (t, n) := ⟨_, _, rfl⟩
    by_cases hn : n ≤ cs.length
    · exact .cons hmunch hn (cut_of_not_covered (cs.drop n) fun more => h (.behind hmunch hn more))
    · have hn := Nat.lt_of_not_le hn
      exact absurd (.inside hmunch hn (munch_over_blank hw hmunch hn)) h
termination_by front => front.length
decreasing_by simp only [List.length_drop, List.length_cons]; omega

/-! ## What follows a blank -/

/-- What stands behind a blank does not matter for a token in front of it. -/
theorem munch_append_blank {c : Char} {cs x : List Char} {t : Option Token} {n : Nat}
    (h : munch c (cs ++ w :: x) = (t, n)) (hn : n ≤ cs.length)
    (hclosed : t ≠ some (.symbol '"') ∧ t ≠ some (.symbol '\'')) (y : List Char) :
    munch c (cs ++ w :: y) = (t, n) := by
  have hhead : (cs ++ w :: y).head? = (cs ++ w :: x).head? := by cases cs <;> rfl
  have hword := continuesWord_of_isBlank hw
  unfold munch at h ⊢
  rw [hhead]
  split at h <;> rename_i hline
  · rw [if_pos hline]
    exact h
  rw [if_neg hline]
  split at h <;> rename_i hblank
  · rw [if_pos hblank]
    exact h
  rw [if_neg hblank]
  split at h <;> rename_i hcomment
  · cases h
    rw [if_pos hcomment, takeWhile_of_length_le hn y]
  rw [if_neg hcomment]
  split at h <;> rename_i hstart
  · rw [if_pos hstart]
    rwa [takeWhile_append_cons hword] at h ⊢
  rw [if_neg hstart]
  split at h <;> rename_i hnumber
  · rw [if_pos hnumber]
    rwa [← List.cons_append, Literal.front?_append_blank hw] at h ⊢
  rw [if_neg hnumber]
  split at h <;> rename_i hquote
  · rw [if_pos hquote]
    split at h
    · rename_i hquoted
      cases h
      rw [quoted?_append (quoted?_of_append hquoted hn)]
    · cases h
      rcases hquote with rfl | rfl
      · exact absurd rfl hclosed.1
      · exact absurd rfl hclosed.2
  · rw [if_neg hquote]
    exact h

/-- **The lexemes in front of a blank** do not depend on what follows it. -/
theorem Cut.lexemes {front x : List Char} (h : Cut (w :: x) front) {s : Nat}
    (hclosed : ∀ l ∈ lexemes s (front ++ w :: x), ¬ l.IsOpen) :
    ∃ ls, (∀ y, lexemes s (front ++ w :: y) = ls ++ lexemes (s + byteSize front) (w :: y)) ∧
      ∀ l ∈ ls, l.stop ≤ s + byteSize front := by
  induction h generalizing s with
  | nil => exact ⟨[], fun _ => rfl, List.forall_mem_nil _⟩
  | @cons c cs t n hmunch hn more ih =>
    have hsize := byteSize_take_drop s c cs n
    have hdrop (y : List Char) : (cs ++ w :: y).drop n = cs.drop n ++ w :: y :=
      List.drop_append_of_le_length hn
    have htake (y : List Char) : (cs ++ w :: y).take n = cs.take n :=
      List.take_append_of_le_length hn
    rw [List.cons_append] at hclosed
    cases t with
    | none =>
      have hmunch' := munch_append_blank hw hmunch hn ⟨nofun, nofun⟩
      rw [lexemes_of_none hmunch, hdrop, htake] at hclosed
      obtain ⟨ls, hls, hstop⟩ := ih hclosed
      rw [hsize] at hls hstop
      refine ⟨ls, fun y => ?_, hstop⟩
      rw [List.cons_append, lexemes_of_none (hmunch' y), hdrop, htake, hls]
    | some t =>
      rw [lexemes_of_munch hmunch, hdrop, htake] at hclosed
      obtain ⟨hopen, hclosed⟩ := List.forall_mem_cons.1 hclosed
      have hmunch' := munch_append_blank hw hmunch hn
        ⟨fun ht => hopen (.inl (Option.some.inj ht)), fun ht => hopen (.inr (Option.some.inj ht))⟩
      obtain ⟨ls, hls, hstop⟩ := ih hclosed
      rw [hsize] at hls hstop
      have hle : s + byteSize (c :: cs.take n) ≤ s + byteSize (c :: cs) := Nat.le.intro hsize
      refine ⟨⟨t, c, s, _⟩ :: ls, fun y => ?_, List.forall_mem_cons.2 ⟨hle, hstop⟩⟩
      rw [List.cons_append, lexemes_of_munch (hmunch' y), hdrop, htake, hls]
      rfl

/-- A blank is a line end, or no lexeme. -/
theorem lexemes_isBlank (s : Nat) (cs : List Char) :
    lexemes s (w :: cs) =
      (if w = '\n' then [⟨.newline, '\n', s, s + w.utf8Size⟩] else []) ++
        lexemes (s + w.utf8Size) cs := by
  by_cases hline : w = '\n'
  · subst hline
    exact lexemes_line s cs
  · have hmunch : munch w cs = (none, 0) := by
      rw [munch, if_neg hline, if_pos hw]
    rw [lexemes_of_none hmunch, if_neg hline]
    rfl

end

/-! ## Line ends -/

/-- A line end, perhaps behind a comment. -/
inductive IsBreak : List Char → Prop
  | line : IsBreak ['\n']
  | comment {cs : List Char} (h : '\n' ∉ cs) : IsBreak ('/' :: '/' :: cs ++ ['\n'])

/-- A comment is no lexeme. -/
theorem lexemes_comment (s : Nat) {cs : List Char} (h : '\n' ∉ cs) (more : List Char) :
    lexemes s ('/' :: '/' :: cs ++ '\n' :: more) =
      lexemes (s + byteSize ('/' :: '/' :: cs)) ('\n' :: more) := by
  have hall : ∀ c ∈ '/' :: cs, (c != '\n') = true := by
    intro c hc
    rcases List.mem_cons.1 hc with rfl | hc
    · rfl
    · exact bne_iff_ne.2 fun hline => h (hline ▸ hc)
  have htake : ('/' :: cs ++ '\n' :: more).takeWhile (· != '\n') = '/' :: cs := by
    rw [takeWhile_append_cons rfl]
    exact List.takeWhile_eq_self_iff.2 hall
  have hslash : Text.isBlank '/' = false := by decide
  have hmunch : munch '/' ('/' :: cs ++ '\n' :: more) = (none, ('/' :: cs).length) := by
    rw [munch, if_neg (by decide), if_neg (by rw [hslash]; decide), if_pos ⟨rfl, rfl⟩, htake]
  have hnext := lexemes_of_none hmunch s
  rw [List.take_left, List.drop_left] at hnext
  exact hnext

/-- **A line end is one lexeme more**, with or without a comment. -/
theorem IsBreak.lexemes {gap : List Char} (h : IsBreak gap) (s : Nat) :
    ∃ line : Lexeme, line.token = .newline ∧
      ∀ cs, lexemes s (gap ++ cs) = line :: lexemes (s + byteSize gap) cs := by
  cases h with
  | line => exact ⟨_, rfl, lexemes_line s⟩
  | @comment text htext =>
    let n := s + byteSize ('/' :: '/' :: text)
    refine ⟨⟨.newline, '\n', n, n + 1⟩, rfl, fun cs => ?_⟩
    have hgap : '/' :: '/' :: text ++ ['\n'] ++ cs = '/' :: '/' :: text ++ '\n' :: cs := by simp
    rw [hgap, lexemes_comment s htext, lexemes_line, Text.byteSize_append, Nat.add_assoc]
    rfl

end Token

end BarScript
