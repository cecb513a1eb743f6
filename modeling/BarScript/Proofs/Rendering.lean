import BarScript.Diagnostic
import BarScript.Text.Lines
import Mathlib.Data.List.TakeWhile

/-!
# Diagnostics show the right line

A position is sound if a piece of the text ends there (`Text.Behind`), so that no character is cut.
`Diagnostic.Shown` says what a rendering has to show: the line that the position is on, its number,
and a caret behind as many characters as there are between the start of the line and the position.
Every sound position is shown that way (`Diagnostic.shown_of_behind`).
-/

namespace BarScript

namespace Text

theorem byteSize_append (cs ds : List Char) : byteSize (cs ++ ds) = byteSize cs + byteSize ds := by
  induction cs with
  | nil => simp [byteSize]
  | cons c cs ih => simp [byteSize, ih, Nat.add_assoc]

theorem byteSize_pos {cs : List Char} (h : cs ≠ []) : 0 < byteSize cs := by
  cases cs with
  | nil => exact absurd rfl h
  | cons c cs => exact Nat.lt_of_lt_of_le c.utf8Size_pos (Nat.le_add_right _ _)

/-! ## Places in a text -/

/-- In the text `cs`, `rest` is what stands behind the first `n` bytes. -/
def Behind (cs : List Char) (n : Nat) (rest : List Char) : Prop :=
  ∃ front, cs = front ++ rest ∧ byteSize front = n

namespace Behind

variable {cs rest own : List Char} {n : Nat}

theorem zero (cs : List Char) : Behind cs 0 cs := ⟨[], rfl, rfl⟩

theorem finish (cs : List Char) : Behind cs (byteSize cs) [] := ⟨cs, (List.append_nil cs).symm, rfl⟩

/-- What stands behind a piece of the text. -/
theorem past (h : Behind cs n (own ++ rest)) : Behind cs (n + byteSize own) rest := by
  obtain ⟨front, rfl, rfl⟩ := h
  exact ⟨front ++ own, (List.append_assoc ..).symm, byteSize_append ..⟩

theorem le (h : Behind cs n rest) : n ≤ byteSize cs := by
  obtain ⟨front, rfl, rfl⟩ := h
  rw [byteSize_append]
  exact Nat.le_add_right _ _

/-- A text is cut there. -/
theorem byteSplit_eq (h : Behind cs n rest) :
    ∃ front, byteSplit n cs = (front, rest) ∧ cs = front ++ rest ∧ byteSize front = n := by
  obtain ⟨front, rfl, hn⟩ := h
  refine ⟨front, ?_, rfl, hn⟩
  induction front generalizing n with
  | nil =>
    obtain rfl : n = 0 := hn.symm
    cases rest with
    | nil => rfl
    | cons c rest =>
      have hsize : ¬ c.utf8Size ≤ 0 := Nat.not_le.2 c.utf8Size_pos
      simp [byteSplit, hsize]
  | cons c front ih =>
    rw [byteSize] at hn
    have hle : c.utf8Size ≤ n := by omega
    have hrest : byteSize front = n - c.utf8Size := by omega
    simp [byteSplit, hle, ih hrest]

end Behind

/-! ## Lines -/

/-- The number of the line that the byte `n` is on. -/
def lineNumber (n : Nat) (cs : List Char) : Nat := (byteSplit n cs).1.count '\n' + 1

theorem lines_ne_nil (cs : List Char) : lines cs ≠ [] := by
  cases cs with
  | nil => exact List.cons_ne_nil _ _
  | cons c cs =>
    rw [lines]
    split
    · exact List.cons_ne_nil _ _
    · split <;> exact List.cons_ne_nil _ _

/-- A character that is no line break belongs to the first line. -/
theorem lines_cons {c : Char} (hc : c ≠ '\n') (cs : List Char) :
    ∃ l ls, lines cs = l :: ls ∧ lines (c :: cs) = (c :: l) :: ls := by
  obtain ⟨l, ls, hls⟩ := List.exists_cons_of_ne_nil (lines_ne_nil cs)
  exact ⟨l, ls, hls, by rw [lines, if_neg hc, hls]⟩

/-- The first line goes up to the first line break. -/
theorem head?_lines (cs : List Char) : (lines cs).head? = some (cs.takeWhile (· != '\n')) := by
  induction cs with
  | nil => rfl
  | cons c cs ih =>
    by_cases hc : c = '\n'
    · simp [lines, hc]
    · obtain ⟨l, ls, hls, hcons⟩ := lines_cons hc cs
      rw [hls, List.head?_cons, Option.some.injEq] at ih
      simp [hcons, hc, ih]

end Text

namespace Diagnostic

open Text (byteSize lines)

theorem lastLine_of_not_mem {cs : List Char} (h : '\n' ∉ cs) : lastLine cs = cs := by
  have hall : ∀ c ∈ cs.reverse, (c != '\n') = true := fun c hc =>
    bne_iff_ne.2 fun heq => h (heq ▸ List.mem_reverse.1 hc)
  rw [lastLine, List.takeWhile_eq_self_iff.2 hall, List.reverse_reverse]

/-- A character in front of a line break, and a line break itself, is not on the last line. -/
theorem lastLine_cons (c : Char) (cs : List Char) :
    lastLine (c :: cs) = if '\n' ∈ cs ∨ c = '\n' then lastLine cs else c :: cs := by
  split
  · rename_i h
    rw [lastLine, lastLine, List.reverse_cons, List.takeWhile_append]
    split
    · -- no line break in `cs`, so `c` is one
      rename_i hlength
      have hself := (List.takeWhile_prefix (· != '\n')).eq_of_length hlength
      have hnot : '\n' ∉ cs := fun hmem =>
        absurd (List.takeWhile_eq_self_iff.1 hself _ (List.mem_reverse.2 hmem)) (by decide)
      rw [h.resolve_left hnot, hself]
      simp
    · rfl
  · rename_i h
    refine lastLine_of_not_mem fun hmem => h ?_
    exact (List.mem_cons.1 hmem).symm.imp_right Eq.symm

/-- The line that a text goes on with is the one with as many line breaks in front of it, and what
is in front of the text adds up to the lines before, their line breaks, and the rest of this one. -/
theorem lines_append (front rest : List Char) :
    (lines (front ++ rest))[front.count '\n']? =
        some (lastLine front ++ rest.takeWhile (· != '\n')) ∧
      byteSize ((lines (front ++ rest)).take (front.count '\n')).flatten + front.count '\n' +
        byteSize (lastLine front) = byteSize front := by
  induction front with
  | nil => exact ⟨(List.head?_eq_getElem?).symm.trans (Text.head?_lines rest), rfl⟩
  | cons c front ih =>
    by_cases hc : c = '\n'
    · subst hc
      have hlines : lines ('\n' :: (front ++ rest)) = [] :: lines (front ++ rest) := by
        rw [lines, if_pos rfl]
      have hsize : '\n'.utf8Size = 1 := by decide
      rw [List.cons_append, hlines, List.count_cons_self, lastLine_cons, if_pos (.inr rfl)]
      refine ⟨ih.1, ?_⟩
      rw [List.take_succ_cons, List.flatten_cons, List.nil_append, byteSize, hsize]
      omega
    · obtain ⟨l, ls, hls, hcons⟩ := Text.lines_cons hc (front ++ rest)
      rw [hls] at ih
      rw [List.cons_append, hcons, List.count_cons_of_ne hc, lastLine_cons]
      by_cases hmem : '\n' ∈ front
      · -- the line break is behind `c`, which is on a line before
        obtain ⟨k, hk⟩ := Nat.exists_eq_succ_of_ne_zero
          (Nat.ne_of_gt (List.count_pos_iff.2 hmem))
        rw [hk] at ih ⊢
        rw [if_pos (.inl hmem)]
        refine ⟨ih.1, ?_⟩
        have hsum := ih.2
        simp only [List.take_succ_cons, List.flatten_cons, List.cons_append, byteSize] at hsum ⊢
        omega
      · have hnone : ¬ ('\n' ∈ front ∨ c = '\n') := not_or.2 ⟨hmem, hc⟩
        rw [List.count_eq_zero_of_not_mem hmem, lastLine_of_not_mem hmem] at ih
        rw [if_neg hnone, List.count_eq_zero_of_not_mem hmem]
        simp only [List.getElem?_cons_zero, Option.some.injEq] at ih
        exact ⟨by simp [ih.1], by simp [byteSize]⟩

/-- A caret behind as many blanks. -/
def caret (column : Nat) : String := String.ofList (List.replicate column ' ' ++ ['^'])

/-- What a rendering shows of the position `n`: the line it is on, the number of that line, and a
caret behind `column` characters. -/
structure Shown (d : Diagnostic) (source : String) (number column : Nat) (line : List Char) :
    Prop where
  /-- The lines are counted from one. -/
  numbered : 1 ≤ number
  /-- The line is the one with that number. -/
  line_eq : (lines source.toList)[number - 1]? = some line
  column_le : column ≤ line.length
  /-- The lines before, their line breaks, and the characters in front of the caret add up to the
  position. -/
  position : byteSize ((lines source.toList).take (number - 1)).flatten + (number - 1) +
    byteSize (line.take column) = d.position
  render : d.render source =
    s!"line {number}:\n{String.ofList line}\n{caret column}\n{d.headline}"

/-- **A position that cuts no character is shown on its line, under its column.** -/
theorem shown_of_behind {d : Diagnostic} {source : String} {rest : List Char}
    (h : Text.Behind source.toList d.position rest) :
    ∃ column line, d.Shown source (Text.lineNumber d.position source.toList) column line := by
  obtain ⟨front, hsplit, hsource, hsize⟩ := h.byteSplit_eq
  obtain ⟨hline, hsum⟩ := lines_append front rest
  have hnumber : Text.lineNumber d.position source.toList = front.count '\n' + 1 := by
    rw [Text.lineNumber, hsplit]
  refine ⟨(lastLine front).length, lastLine front ++ rest.takeWhile (· != '\n'), ?_⟩
  rw [hnumber]
  exact {
    numbered := Nat.le_add_left _ _
    line_eq := by rw [Nat.add_sub_cancel, hsource, hline]
    column_le := by simp
    position := by rw [Nat.add_sub_cancel, hsource, List.take_left, hsum, hsize]
    render := by
      unfold render
      rw [hsplit]
      rfl }

end Diagnostic

end BarScript
