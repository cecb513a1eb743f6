import BarScript.Proofs.LineEnd
import BarScript.Proofs.Relocation

/-!
# Placing lexemes into a longer text

A `Placement` moves the lexemes of a text and puts others behind them, which start on a new line. It
is a relocation (`Placement.relocation`): nothing in the text touches what is put behind it.
-/

namespace BarScript

/-- Lexemes are moved by `offset` bytes; `behind` follows them on a new line. -/
structure Placement where
  offset : Nat
  behind : List Lexeme
  finish : Nat
  line : ∀ l ∈ behind.head?, l.token = .newline

namespace Placement

variable (P : Placement) {c : Cursor}

/-- The place `c` in the longer text. -/
def cursor (c : Cursor) : Cursor :=
  ⟨c.rest.map (Lexeme.moved P.offset) ++ P.behind, c.depth, P.finish⟩

theorem skip_rest {l : Lexeme} {r : List Lexeme} (h : c.skip.rest = l :: r) :
    (P.cursor c).skip.rest = l.moved P.offset :: (r.map (Lexeme.moved P.offset) ++ P.behind) := by
  have hmoved : (fun l : Lexeme => l.token == .newline) ∘ Lexeme.moved P.offset =
      fun l => l.token == .newline := rfl
  have hdepth : (P.cursor c).depth = c.depth := rfl
  have hrest : (P.cursor c).rest = c.rest.map (Lexeme.moved P.offset) ++ P.behind := rfl
  unfold Cursor.skip at h ⊢
  rw [hdepth]
  split at h <;> rename_i hopen
  · dsimp only at h
    rw [if_pos hopen, hrest, List.dropWhile_append, List.dropWhile_map, hmoved, h]
    rfl
  · rw [if_neg hopen, hrest, h]
    rfl

/-- Where the text ends, outside of brackets, the new line begins, or nothing follows. -/
theorem skip_nil (hs : c.Sealed) (h : c.skip.rest = []) :
    ∀ l ∈ (P.cursor c).skip.rest.head?, l.token = .newline := by
  obtain ⟨hdepth, hrest⟩ := hs.skip_nil h
  have hcursor : (P.cursor c).skip.rest = P.behind := by
    simp [Cursor.skip, cursor, hdepth, hrest]
  rw [hcursor]
  exact P.line

theorem touching_rest (n : Nat) (ls : List Lexeme) :
    touching (n + P.offset) (ls.map (Lexeme.moved P.offset) ++ P.behind) =
      (touching n ls).map fun x =>
        (x.1.moved P.offset, x.2.map (Lexeme.moved P.offset) ++ P.behind) := by
  cases ls with
  | nil =>
    cases hbehind : P.behind with
    | nil => rfl
    | cons l r =>
      have hline := P.line l (by rw [hbehind]; rfl)
      simp [touching, hline]
  | cons l r =>
    have hstart : (l.moved P.offset).start = n + P.offset ↔ l.start = n := Nat.add_right_cancel_iff
    have htoken : (l.moved P.offset).token = l.token := rfl
    simp only [List.map_cons, List.cons_append, touching, hstart, htoken]
    split <;> rfl

/-- A text in a longer one. -/
def relocation : Relocation where
  place n := n + P.offset
  lexeme := Lexeme.moved P.offset
  rest ls := ls.map (Lexeme.moved P.offset) ++ P.behind
  finish := P.finish
  Fits _ := True
  Behind _ _ := True
  length_lt h := by simpa using h
  token _ := rfl
  start _ := rfl
  fits_suffix _ _ _ := trivial
  skip_cons _ h := P.skip_rest h
  skip_nil _ := P.skip_nil
  behind _ _ _ := trivial
  stop _ := rfl
  touching_rest _ := P.touching_rest _ _
  behind_touching _ _ := trivial

end Placement

end BarScript
