import BarScript.Proofs.Blanks
import BarScript.Proofs.MovingStatements

/-!
# Layout inside of brackets is free

An `Insertion` puts a line end between the lexemes of a text where a bracket is open. It is a
relocation: wherever the parser comes to the line end, it counts an open bracket, because it closes
in the count what it closes in the text (`Cursor.Passes.level`), and so it passes over it. A line
end behind a blank, with or without a comment, therefore changes nothing but positions
(`parse_insert_break`).
-/

namespace BarScript

open Text (byteSize)

/-- Where the bytes are that stand behind the byte `bound` when `k` bytes are put in there. -/
def Text.shift (bound k n : Nat) : Nat := if n ≤ bound then n else n + k

/-- A line end between the lexemes `front` and `back`, behind the byte `bound` of the text. -/
structure Insertion where
  front : List Lexeme
  back : List Lexeme
  line : Lexeme
  bound : Nat
  offset : Nat
  finish : Nat
  token_line : line.token = .newline
  start_front : ∀ l ∈ front, l.start ≤ bound
  stop_front : ∀ l ∈ front, l.token ≠ .newline → l.stop ≤ bound
  start_back : ∀ l ∈ back, bound < l.start
  stop_back : ∀ l ∈ back, bound < l.stop

namespace Insertion

variable (I : Insertion)

def lexeme (l : Lexeme) : Lexeme := if l.start ≤ I.bound then l else l.moved I.offset

/-- The lexemes behind the line end are moved; it stands in front of them as long as none of them
has been read. -/
def rest (ls : List Lexeme) : List Lexeme :=
  if I.back.length ≤ ls.length then
    ls.take (ls.length - I.back.length) ++ I.line :: I.back.map (Lexeme.moved I.offset)
  else ls.map (Lexeme.moved I.offset)

/-- The cursors from which a bracket is open where the line end is put in. -/
def Fits (c : Cursor) : Prop := c.rest <:+ I.front ++ I.back ∧ nest I.back < c.level

variable {I} {l : Lexeme} {ls r : List Lexeme} {c : Cursor}

theorem start_lexeme (l : Lexeme) : (I.lexeme l).start = Text.shift I.bound I.offset l.start := by
  unfold lexeme Text.shift
  split <;> rfl

theorem token_lexeme (l : Lexeme) : (I.lexeme l).token = l.token := by
  unfold lexeme
  split <;> rfl

theorem lexeme_front (h : l ∈ I.front) : I.lexeme l = l := if_pos (I.start_front l h)

theorem lexeme_back (h : l ∈ I.back) : I.lexeme l = l.moved I.offset :=
  if_neg (Nat.not_le_of_lt (I.start_back l h))

theorem stop_lexeme (h : l ∈ I.front ++ I.back) (hline : l.token ≠ .newline) :
    (I.lexeme l).stop = Text.shift I.bound I.offset l.stop := by
  rcases List.mem_append.1 h with h | h
  · rw [lexeme_front h, Text.shift, if_pos (I.stop_front l h hline)]
  · rw [lexeme_back h, Text.shift, if_neg (Nat.not_le_of_lt (I.stop_back l h))]
    rfl

theorem length_rest (ls : List Lexeme) :
    (I.rest ls).length = if I.back.length ≤ ls.length then ls.length + 1 else ls.length := by
  unfold rest
  split
  · simp only [List.length_append, List.length_take, List.length_cons, List.length_map]
    omega
  · exact List.length_map _

theorem rest_append (ls : List Lexeme) :
    I.rest (ls ++ I.back) = ls ++ I.line :: I.back.map (Lexeme.moved I.offset) := by
  rw [rest, if_pos (by simp), List.length_append, Nat.add_sub_cancel, List.take_left]

theorem rest_back : I.rest I.back = I.line :: I.back.map (Lexeme.moved I.offset) := rest_append []

theorem rest_nil (h : I.back ≠ []) : I.rest [] = [] :=
  if_neg (Nat.not_le_of_lt (List.length_pos_iff.2 h))

/-- The lexemes behind the line end, once it has been passed over. -/
theorem rest_behind (h : l :: r <:+ I.back) :
    I.lexeme l = l.moved I.offset ∧ I.rest r = r.map (Lexeme.moved I.offset) :=
  ⟨lexeme_back (h.mem List.mem_cons_self), if_neg (Nat.not_le_of_lt h.length_le)⟩

/-- Where the line end is not in front, the lexeme in front has its counterpart. -/
theorem rest_cons (h : l :: r <:+ I.front ++ I.back) (hne : l :: r ≠ I.back) :
    I.rest (l :: r) = I.lexeme l :: I.rest r := by
  obtain ⟨u, hu⟩ := h
  rcases List.append_eq_append_iff.1 hu with ⟨v, hfront, hls⟩ | ⟨v, -, hback⟩
  · cases v with
    | nil => exact absurd hls hne
    | cons x v =>
      obtain ⟨rfl, rfl⟩ := List.cons.inj hls
      have hl : l ∈ I.front := hfront ▸ List.mem_append_right _ List.mem_cons_self
      have hrest := I.rest_append v
      rw [lexeme_front hl]
      exact (I.rest_append (l :: v)).trans (congrArg (l :: ·) hrest.symm)
  · have hsuffix : l :: r <:+ I.back := ⟨v, hback.symm⟩
    have hlt : (l :: r).length < I.back.length :=
      Nat.lt_of_le_of_ne hsuffix.length_le fun heq => hne (hsuffix.eq_of_length heq)
    obtain ⟨hlexeme, hrest⟩ := rest_behind hsuffix
    rw [rest, if_neg (Nat.not_le_of_lt hlt), hlexeme, hrest]
    rfl

/-- Where line ends mean nothing, the one that is put in is passed over. -/
theorem dropWhile_rest (h : ls <:+ I.front ++ I.back)
    (hdrop : ls.dropWhile (·.token == .newline) = l :: r) :
    (I.rest ls).dropWhile (·.token == .newline) = I.lexeme l :: I.rest r := by
  induction ls with
  | nil => cases hdrop
  | cons x xs ih =>
    by_cases hback : x :: xs = I.back
    · rw [hback] at hdrop ⊢
      obtain ⟨hlexeme, hrest⟩ := rest_behind (hdrop ▸ List.dropWhile_suffix _)
      have hmoved : (fun l : Lexeme => l.token == .newline) ∘ Lexeme.moved I.offset =
          fun l => l.token == .newline := rfl
      rw [rest_back, List.dropWhile_cons, if_pos (by rw [I.token_line]; rfl), List.dropWhile_map,
        hmoved, hdrop, hlexeme, hrest]
      rfl
    · rw [rest_cons h hback, List.dropWhile_cons, token_lexeme]
      rw [List.dropWhile_cons] at hdrop
      split at hdrop <;> rename_i hline
      · rw [if_pos hline]
        exact ih ((List.suffix_cons x xs).trans h) hdrop
      · cases hdrop
        rw [if_neg hline]

theorem skip_cons (hc : I.Fits c) (h : c.skip.rest = l :: r) :
    (Cursor.mk (I.rest c.rest) c.depth I.finish).skip.rest = I.lexeme l :: I.rest r := by
  obtain ⟨ls, d, fin⟩ := c
  obtain ⟨hls, hlevel⟩ := hc
  unfold Cursor.skip at h ⊢
  split at h <;> rename_i hopen
  · rw [if_pos hopen]
    exact dropWhile_rest hls h
  · -- outside of brackets the line end is not in front: a bracket is open where it stands
    rw [if_neg hopen]
    obtain rfl : ls = l :: r := h
    refine rest_cons hls fun hback => ?_
    have hd : d = 0 := Nat.eq_zero_of_not_pos hopen
    simp [Cursor.level, hback, hd] at hlevel

/-- Behind the text stands nothing, or the line end. -/
theorem token_rest_nil : ∀ l ∈ I.rest [], l.token = .newline := by
  by_cases hback : I.back = []
  · have hrest := I.rest_back
    rw [hback] at hrest
    rw [hrest]
    exact List.forall_mem_singleton.2 I.token_line
  · rw [rest_nil hback]
    exact List.forall_mem_nil _

theorem skip_nil (hs : c.Sealed) (h : c.skip.rest = []) :
    ∀ l ∈ (Cursor.mk (I.rest c.rest) c.depth I.finish).skip.rest.head?, l.token = .newline := by
  obtain ⟨hdepth, hrest⟩ := hs.skip_nil h
  rw [hdepth, hrest]
  exact fun l hl => token_rest_nil l (List.mem_of_head? hl)

/-- What touches in the text touches with the line end put in. Nothing in the text touches across
the place where it is put in, for a blank stands there. -/
theorem touching_rest (h : l :: ls <:+ I.front ++ I.back) (hline : l.token ≠ .newline) :
    touching (Text.shift I.bound I.offset l.stop) (I.rest ls) =
      (touching l.stop ls).map fun x => (I.lexeme x.1, I.rest x.2) := by
  by_cases hback : ls = I.back
  · subst hback
    obtain ⟨u, hu⟩ := h
    have hfront : u ++ [l] = I.front := (List.append_left_inj I.back).1 (by simpa using hu)
    have hl : l ∈ I.front := hfront ▸ List.mem_append_right _ List.mem_cons_self
    have hstop := I.stop_front l hl hline
    have hnone : touching l.stop I.back = none := by
      cases hx : touching l.stop I.back with
      | none => rfl
      | some x =>
        obtain ⟨hcons, hstart, -⟩ := touching_eq_some.1 hx
        have hlt := I.start_back x.1 (hcons ▸ List.mem_cons_self)
        omega
    rw [hnone, rest_back, touching, if_neg fun h => h.2 I.token_line]
    rfl
  cases ls with
  | nil =>
    rw [rest_nil (Ne.symm hback)]
    rfl
  | cons x xs =>
    have hstart : (I.lexeme x).start = Text.shift I.bound I.offset l.stop ↔ x.start = l.stop := by
      rw [start_lexeme, Text.shift, Text.shift]
      split <;> split <;> omega
    rw [rest_cons ((List.suffix_cons l _).trans h) hback]
    simp only [touching, hstart, token_lexeme]
    split <;> rfl

/-- A text with a line end that is put in where a bracket is open. -/
def relocation (I : Insertion) : Relocation where
  place := Text.shift I.bound I.offset
  lexeme := I.lexeme
  rest := I.rest
  finish := I.finish
  Fits := I.Fits
  Behind l ls := l :: ls <:+ I.front ++ I.back ∧ l.token ≠ .newline
  length_lt h := by
    rw [length_rest, length_rest]
    split <;> split <;> omega
  token := token_lexeme
  start := start_lexeme
  fits_suffix hc hrest hlevel := ⟨hrest.trans hc.1, Int.lt_of_lt_of_le hc.2 hlevel⟩
  skip_cons := skip_cons
  skip_nil _ := skip_nil
  behind hc hp hline := by
    obtain ⟨lines, hrest, -⟩ := Cursor.pop?_some hp
    exact ⟨.trans ⟨lines, hrest.symm⟩ hc.1, hline⟩
  stop h := stop_lexeme (h.1.mem List.mem_cons_self) h.2
  touching_rest h := touching_rest h.1 h.2
  behind_touching h ht := by
    obtain ⟨rfl, -, hline⟩ := touching_eq_some.1 ht
    exact ⟨(List.suffix_cons _ _).trans h.1, hline⟩

end Insertion

/-- How many brackets are open at the byte `n` of a text. -/
def openBrackets (cs : List Char) (n : Nat) : Int :=
  nest ((Token.lexemes 0 cs).filter (·.start < n))

section

variable {front back gap : List Char} {w : Char}

theorem start_lt_stop {cs : List Char} {l : Lexeme} (h : l ∈ Token.lexemes 0 cs) :
    l.start < l.stop := by
  obtain ⟨_, _, -, -, hlt, -⟩ := Token.stands_lexemes (.zero _) l h
  exact hlt

/-- The lexemes in front of a place open the brackets that are open there; line ends that begin
there open none. -/
theorem nest_eq_openBrackets {cs : List Char} {n : Nat} {ls lines r : List Lexeme}
    (h : Token.lexemes 0 cs = ls ++ lines ++ r) (hls : ∀ l ∈ ls, l.start < n)
    (hlines : ∀ l ∈ lines, l.token = .newline ∧ l.start = n) (hr : ∀ l ∈ r, n < l.start) :
    nest (ls ++ lines) = openBrackets cs n := by
  have hkept : ls.filter (·.start < n) = ls :=
    List.filter_eq_self.2 fun l hl => decide_eq_true (hls l hl)
  have hline : lines.filter (·.start < n) = [] :=
    List.filter_eq_nil_iff.2 fun l hl => by simp [(hlines l hl).2]
  have hrest : r.filter (·.start < n) = [] :=
    List.filter_eq_nil_iff.2 fun l hl => by simpa using Nat.le_of_lt (hr l hl)
  have hzero : nest lines = 0 := nest_eq_zero fun l hl => by rw [(hlines l hl).1]; rfl
  rw [openBrackets, h, List.filter_append, List.filter_append, hkept, hline, hrest,
    List.append_nil, List.append_nil, nest_append, hzero, Int.add_zero]

/-- The lexemes in front of a blank that none of them goes across, with the line end that the blank
may be, whatever follows. -/
theorem exists_lexemes (hw : Text.isBlank w = true) (hcut : Token.Cut (w :: back) front)
    (hclosed : ∀ l ∈ Token.lexemes 0 (front ++ w :: back), ¬ l.IsOpen) :
    ∃ ls lines : List Lexeme,
      (∀ l ∈ ls, l.start < byteSize front ∧ l.stop ≤ byteSize front) ∧
      (∀ l ∈ lines, l.token = .newline ∧ l.start = byteSize front) ∧
      ∀ cs, Token.lexemes 0 (front ++ w :: cs) =
        ls ++ lines ++ Token.lexemes (byteSize front + w.utf8Size) cs := by
  obtain ⟨ls, hlexemes, hstop⟩ := hcut.lexemes hw hclosed
  rw [Nat.zero_add] at hlexemes hstop
  let lines : List Lexeme :=
    if w = '\n' then [⟨.newline, '\n', byteSize front, byteSize front + w.utf8Size⟩] else []
  refine ⟨ls, lines, fun l hl => ⟨?_, hstop l hl⟩, fun l hl => ?_, fun cs => ?_⟩
  · have hlt := start_lt_stop (hlexemes back ▸ List.mem_append_left _ hl)
    exact Nat.lt_of_lt_of_le hlt (hstop l hl)
  · obtain ⟨-, hl⟩ := List.mem_ite_nil_right.1 hl
    cases List.mem_singleton.1 hl
    exact ⟨rfl, rfl⟩
  · rw [hlexemes, Token.lexemes_isBlank hw, List.append_assoc]

/-- A line end behind a blank is put in between the lexemes of the text. -/
theorem exists_insertion (hw : Text.isBlank w = true) (hcut : Token.Cut (w :: back) front)
    (hclosed : ∀ l ∈ Token.lexemes 0 (front ++ w :: back), ¬ l.IsOpen)
    (hgap : Token.IsBreak gap) (finish : Nat) :
    ∃ I : Insertion, I.bound = byteSize front ∧ I.offset = byteSize gap ∧ I.finish = finish ∧
      Token.lexemes 0 (front ++ w :: back) = I.front ++ I.back ∧
      Token.lexemes 0 (front ++ w :: (gap ++ back)) = I.rest (I.front ++ I.back) ∧
      nest I.front = openBrackets (front ++ w :: back) (byteSize front) := by
  obtain ⟨ls, lines, hls, hlines, hlexemes⟩ := exists_lexemes hw hcut hclosed
  obtain ⟨line, hline, hlineLexemes⟩ := hgap.lexemes (byteSize front + w.utf8Size)
  have hback : ∀ l ∈ Token.lexemes (byteSize front + w.utf8Size) back, byteSize front < l.start :=
    fun l hl => Nat.lt_of_lt_of_le (Nat.lt_add_of_pos_right w.utf8Size_pos) (Token.le_start hl)
  let I : Insertion :=
    { front := ls ++ lines
      back := Token.lexemes (byteSize front + w.utf8Size) back
      line := line
      bound := byteSize front
      offset := byteSize gap
      finish := finish
      token_line := hline
      start_front := List.forall_mem_append.2
        ⟨fun l hl => Nat.le_of_lt (hls l hl).1, fun l hl => Nat.le_of_eq (hlines l hl).2⟩
      stop_front := List.forall_mem_append.2
        ⟨fun l hl _ => (hls l hl).2, fun l hl hline => absurd (hlines l hl).1 hline⟩
      start_back := hback
      stop_back := fun l hl => Nat.lt_trans (hback l hl)
        (start_lt_stop (hlexemes back ▸ List.mem_append_right _ hl)) }
  refine ⟨I, rfl, rfl, rfl, hlexemes back, ?_, ?_⟩
  · have hmoved := Token.lexemes_moved (byteSize gap) (byteSize front + w.utf8Size) back
    rw [hlexemes, hlineLexemes, hmoved, Insertion.rest_append]
  · exact nest_eq_openBrackets (hlexemes back) (fun l hl => (hls l hl).1) hlines hback

end

/-- **Layout inside of brackets is free.** In a source that is parsed, let `w` be a white space
character that is in no quoted text and in no comment, where a bracket is open. With a line end
behind it, or a comment and a line end, the source has the same statements; their positions are
those of the moved bytes. -/
theorem parse_insert_break {front back gap : String} {w : Char} {ss : List Statement}
    (h : parse (front ++ String.singleton w ++ back) = .ok ss) (hw : Text.isBlank w = true)
    (hplain : ¬ Token.Covered (w :: back.toList) front.toList)
    (hopen : 0 < openBrackets (front ++ String.singleton w ++ back).toList (byteSize front.toList))
    (hgap : Token.IsBreak gap.toList) :
    parse (front ++ String.singleton w ++ gap ++ back) =
      .ok (ss.map (Statement.relocated
        (Text.shift (byteSize front.toList) (byteSize gap.toList)))) := by
  obtain ⟨ps, hreads, -, rfl⟩ := reads_of_parse h
  have hclosed := hreads.closed (Cursor.stands_ofText _)
  have hlist : (front ++ String.singleton w ++ back).toList =
      front.toList ++ w :: back.toList := by simp
  have hlist' : (front ++ String.singleton w ++ gap ++ back).toList =
      front.toList ++ w :: (gap.toList ++ back.toList) := by simp
  rw [Cursor.ofText, hlist] at hreads hclosed
  rw [hlist] at hopen
  obtain ⟨I, hbound, hoffset, hfinish, hlexemes, hrest, hnest⟩ := exists_insertion hw
    (Token.cut_of_not_covered hw front.toList hplain) hclosed hgap
    (byteSize (front.toList ++ w :: (gap.toList ++ back.toList)))
  rw [← hnest] at hopen
  rw [hlexemes] at hreads
  have hfits : I.relocation.Fits
      ⟨I.front ++ I.back, 0, byteSize (front.toList ++ w :: back.toList)⟩ := by
    refine ⟨List.suffix_refl _, ?_⟩
    simp only [Cursor.level, nest_append]
    omega
  have hbeyond : I.relocation.beyond.skipSeparators.rest = [] :=
    List.dropWhile_eq_nil_iff.2 fun l hl => by
      rw [I.token_rest_nil l hl]
      rfl
  have hnil : I.relocation.beyond.statements = .ok [] := by
    rw [Cursor.statements]
    dsimp only
    rw [hbeyond]
    rfl
  have hstatements := I.relocation.statements_cursor hreads hfits rfl
  rw [hnil] at hstatements
  have hcursor : Cursor.ofText (front ++ String.singleton w ++ gap ++ back) =
      I.relocation.cursor ⟨I.front ++ I.back, 0, byteSize (front.toList ++ w :: back.toList)⟩ := by
    rw [Cursor.ofText, hlist', hrest, ← hfinish]
    rfl
  rw [parse, hcursor, hstatements, ← hbound, ← hoffset, List.map_map]
  exact congrArg Except.ok (List.append_nil _)

/-- A comment with a character of two bytes, in parentheses. -/
theorem parse_insert_break_parentheses :
    parse ("(a" ++ String.singleton ' ' ++ "+ b)") =
        .ok [.expr (.binary .add (.name "a" 1) (.name "b" 5))] ∧
      ¬ Token.Covered (' ' :: "+ b)".toList) "(a".toList ∧
      openBrackets ("(a" ++ String.singleton ' ' ++ "+ b)").toList 2 = 1 ∧
      Token.IsBreak "// β\n".toList ∧
      parse ("(a" ++ String.singleton ' ' ++ "// β\n" ++ "+ b)") =
        .ok [.expr (.binary .add (.name "a" 1) (.name "b" 11))] := by
  have h : parse ("(a" ++ String.singleton ' ' ++ "+ b)") =
      .ok [.expr (.binary .add (.name "a" 1) (.name "b" 5))] := by with_unfolding_all rfl
  have hcut : Token.Cut (' ' :: "+ b)".toList) "(a".toList :=
    .cons (by with_unfolding_all rfl) (Nat.zero_le _)
      (.cons (by with_unfolding_all rfl) (Nat.zero_le _) .nil)
  have hopen : openBrackets ("(a" ++ String.singleton ' ' ++ "+ b)").toList 2 = 1 := by
    with_unfolding_all rfl
  have hgap : Token.IsBreak "// β\n".toList := @Token.IsBreak.comment [' ', 'β'] (by decide)
  have hopen' : 0 < openBrackets ("(a" ++ String.singleton ' ' ++ "+ b)").toList
      (byteSize "(a".toList) := lt_of_lt_of_eq Int.zero_lt_one hopen.symm
  exact ⟨h, hcut.not_covered, hopen, hgap,
    parse_insert_break h (by decide) hcut.not_covered hopen' hgap⟩

end BarScript
