import BarScript.Proofs.Lexing
import BarScript.Proofs.Rendering
import BarScript.Script.Cursor

/-!
# Where lexemes stand

Every lexeme of a text stands in the text at its start, as it is written (`Lexeme.Stands`,
`Token.stands_lexemes`), and the lexemes of a text stand behind one another
(`Token.lexemes_ordered`).
-/

namespace BarScript

open Text (byteSize Behind)

namespace Token

/-- How a token is written, in front of `rest`. Nothing is said about the digits of a number. -/
inductive Written : Token → List Char → List Char → Prop
  | word (w : String) (rest : List Char) : Written (.word w) w.toList rest
  | number (l : Literal) (own rest : List Char) : Written (.number l) own rest
  | text {quote : Char} (hquote : quote = '"' ∨ quote = '\'') {t : String} {cs rest : List Char}
      (h : quoted? quote (cs ++ rest) = some (t.toList, cs.length)) :
      Written (.text t) (quote :: cs) rest
  | newline (rest : List Char) : Written .newline ['\n'] rest
  | symbol (c : Char) (rest : List Char) : Written (.symbol c) [c] rest

theorem quoted?_le {quote : Char} {cs t : List Char} {n : Nat}
    (h : quoted? quote cs = some (t, n)) : n ≤ cs.length := by
  fun_induction quoted? quote cs generalizing t n with
  | case1 => cases h
  | case2 => cases h
  | case3 c cs ih =>
    obtain ⟨⟨t', n'⟩, h', heq⟩ := Option.map_eq_some_iff.1 h
    cases heq
    have := ih h'
    simp only [List.length_cons]
    omega
  | case4 =>
    cases h
    simp
  | case5 => cases h
  | case6 c cs _ _ _ _ ih =>
    obtain ⟨⟨t', n'⟩, h', heq⟩ := Option.map_eq_some_iff.1 h
    cases heq
    have := ih h'
    simp only [List.length_cons]
    omega

/-- A token is written as the characters that belong to it. -/
theorem munch_written {c : Char} {cs : List Char} {t : Token} {n : Nat}
    (h : munch c cs = (some t, n)) : Written t (c :: cs.take n) (cs.drop n) := by
  unfold munch at h
  split at h
  · rename_i hc
    cases h
    rw [hc]
    exact .newline _
  split at h
  · cases h
  split at h
  · cases h
  split at h
  · cases h
    have htake : cs.take (cs.takeWhile continuesWord).length = cs.takeWhile continuesWord :=
      (List.prefix_iff_eq_take.1 (List.takeWhile_prefix _)).symm
    rw [htake]
    have hword := Written.word (String.ofList (c :: cs.takeWhile continuesWord))
      (cs.drop (cs.takeWhile continuesWord).length)
    rwa [String.toList_ofList] at hword
  split at h
  · split at h
    · cases h
      exact .number _ _ _
    · cases h
      exact .symbol c cs
  split at h
  · rename_i hquote
    split at h
    · rename_i t' n' hquoted
      cases h
      refine .text hquote ?_
      rw [List.take_append_drop, hquoted, String.toList_ofList,
        List.length_take_of_le (quoted?_le hquoted)]
    · cases h
      exact .symbol c cs
  · cases h
    exact .symbol c cs

end Token

/-- A quote that opens no text. -/
def Lexeme.IsOpen (l : Lexeme) : Prop := l.token = .symbol '"' ∨ l.token = .symbol '\''

/-- The lexeme stands in the text `cs` from its start to its stop. -/
def Lexeme.Stands (cs : List Char) (l : Lexeme) : Prop :=
  ∃ own rest, Behind cs l.start (own ++ rest) ∧ l.stop = l.start + byteSize own ∧
    l.start < l.stop ∧ l.token.Written own rest

namespace Token

/-- **The lexemes of a text stand in it.** -/
theorem stands_lexemes {cs rest : List Char} {s : Nat} (h : Behind cs s rest) :
    ∀ l ∈ lexemes s rest, l.Stands cs := by
  fun_induction lexemes s rest with
  | case1 => exact List.forall_mem_nil _
  | case2 s c rest n stop more t hmunch ih =>
    have hown : Behind cs s ((c :: rest.take n) ++ rest.drop n) := by
      rwa [List.cons_append, List.take_append_drop]
    refine List.forall_mem_cons.2 ⟨⟨_, _, hown, rfl, ?_, munch_written hmunch⟩, ih hown.past⟩
    exact Nat.lt_add_of_pos_right (Text.byteSize_pos (List.cons_ne_nil _ _))
  | case3 s c rest n stop more hmunch ih =>
    have hown : Behind cs s ((c :: rest.take n) ++ rest.drop n) := by
      rwa [List.cons_append, List.take_append_drop]
    exact ih hown.past

/-- **The lexemes of a text stand behind one another.** -/
theorem lexemes_ordered (s : Nat) (cs : List Char) :
    (lexemes s cs).Pairwise fun l l' => l.stop ≤ l'.start := by
  fun_induction lexemes s cs with
  | case1 => exact .nil
  | case2 s c cs n stop more t hmunch ih => exact .cons (fun l hl => le_start hl) ih
  | case3 s c cs n stop more hmunch ih => exact ih

end Token

end BarScript
