import BarScript.Proofs.Marks
import BarScript.Proofs.Reading

/-!
# What the parser consumes

`Cursor.Trace c used d`: going from `c` to `d` the parser passes the lexemes `used`, none of which
is a quote that opens no text. A rule that succeeds passes something other than line ends and leaves
as many brackets open as it has found (`Cursor.Took`); a rule that fails does so where a lexeme
starts or where the text ends (`Cursor.Points`). `Traced Q m` says both of a rule, and that what it
has read is in `Q`. The expressions that the grammar reads stand in the text, among the lexemes that
were passed (`traced_expression`).
-/

namespace BarScript

open Text (byteSize Behind)

namespace Cursor

/-- From `c` to `d` the lexemes `used` are passed, and none of them is an open quote. -/
structure Trace (c : Cursor) (used : List Lexeme) (d : Cursor) : Prop where
  rest : c.rest = used ++ d.rest
  finish : d.finish = c.finish
  closed : ∀ l ∈ used, ¬ l.IsOpen

/-- What a rule has passed that succeeds. -/
structure Took (c : Cursor) (used : List Lexeme) (d : Cursor) : Prop extends Trace c used d where
  solid : ∃ l ∈ used, l.token ≠ .newline
  depth : d.depth = c.depth

/-- What a rule has passed that closes a bracket. -/
structure Shut (c : Cursor) (used : List Lexeme) (d : Cursor) : Prop extends Trace c used d where
  solid : ∃ l ∈ used, l.token ≠ .newline
  depth : d.depth = c.depth - 1

/-- A lexeme starts at the byte `n`, or the text ends there. -/
def Points (c : Cursor) (n : Nat) : Prop := (∃ l ∈ c.rest, l.start = n) ∨ n = c.finish

/-- The lexemes from here on stand in the text. -/
def Stands (cs : List Char) (c : Cursor) : Prop := ∀ l ∈ c.rest, l.Stands cs

namespace Trace

variable {c d e : Cursor} {u v : List Lexeme}

theorem refl (c : Cursor) : c.Trace [] c := ⟨rfl, rfl, List.forall_mem_nil _⟩

theorem trans (h : c.Trace u d) (h' : d.Trace v e) : c.Trace (u ++ v) e where
  rest := by rw [h.rest, h'.rest, List.append_assoc]
  finish := h'.finish.trans h.finish
  closed := List.forall_mem_append.2 ⟨h.closed, h'.closed⟩

theorem stands {cs : List Char} (h : c.Trace u d) (hc : c.Stands cs) : d.Stands cs :=
  fun l hl => hc l (h.rest ▸ List.mem_append_right _ hl)

theorem mem (h : c.Trace u d) {l : Lexeme} (hl : l ∈ u) : l ∈ c.rest :=
  h.rest ▸ List.mem_append_left _ hl

theorem points (h : c.Trace u d) {n : Nat} (hn : d.Points n) : c.Points n := by
  rcases hn with ⟨l, hl, hstart⟩ | hn
  · exact .inl ⟨l, h.rest ▸ List.mem_append_right _ hl, hstart⟩
  · exact .inr (hn.trans h.finish)

end Trace

/-- Something that may pass nothing, behind something that was read. -/
theorem Took.before {c d e : Cursor} {u v : List Lexeme} (h : c.Took u d) (h' : d.Trace v e)
    (hdepth : e.depth = d.depth) : c.Took (u ++ v) e where
  toTrace := h.toTrace.trans h'
  solid := h.solid.imp fun _ hl => ⟨List.mem_append_left _ hl.1, hl.2⟩
  depth := hdepth.trans h.depth

/-- Something that was read behind something that may pass nothing. -/
theorem Took.behind {c d e : Cursor} {u v : List Lexeme} (h : c.Trace u d)
    (hdepth : d.depth = c.depth) (h' : d.Took v e) : c.Took (u ++ v) e where
  toTrace := h.trans h'.toTrace
  solid := h'.solid.imp fun _ hl => ⟨List.mem_append_right _ hl.1, hl.2⟩
  depth := h'.depth.trans hdepth

theorem Took.trans {c d e : Cursor} {u v : List Lexeme} (h : c.Took u d) (h' : d.Took v e) :
    c.Took (u ++ v) e :=
  h.before h'.toTrace h'.depth

theorem Took.shut {c d e : Cursor} {u v : List Lexeme} (h : c.Took u d) (h' : d.Shut v e) :
    c.Shut (u ++ v) e where
  toTrace := h.toTrace.trans h'.toTrace
  solid := h.solid.imp fun _ hl => ⟨List.mem_append_left _ hl.1, hl.2⟩
  depth := h'.depth.trans (congrArg (· - 1) h.depth)

theorem Shut.before {c d e : Cursor} {u v : List Lexeme} (h : c.Shut u d) (h' : d.Took v e) :
    c.Shut (u ++ v) e where
  toTrace := h.toTrace.trans h'.toTrace
  solid := h.solid.imp fun _ hl => ⟨List.mem_append_left _ hl.1, hl.2⟩
  depth := h'.depth.trans h.depth

theorem Trace.opened {c d : Cursor} {u : List Lexeme} {β : Type} {p : Parsed d β}
    (h : c.Trace u p.next) : c.Trace u p.opened.next :=
  ⟨h.rest, h.finish, h.closed⟩

/-- An opening bracket with what is read up to and with the closing one. -/
theorem Took.bracketed {c d : Cursor} {u v : List Lexeme} {β : Type} {p : Parsed c β}
    (h : c.Took u p.next) (h' : p.opened.next.Shut v d) : c.Took (u ++ v) d where
  toTrace := h.toTrace.opened.trans h'.toTrace
  solid := h.solid.imp fun _ hl => ⟨List.mem_append_left _ hl.1, hl.2⟩
  depth := h'.depth.trans h.depth

/-! ## Lexemes -/

/-- Only line ends are passed over. -/
theorem skip_rest (c : Cursor) :
    ∃ lines, c.rest = lines ++ c.skip.rest ∧ ∀ l ∈ lines, l.token = .newline := by
  unfold skip
  split
  · refine ⟨c.rest.takeWhile (·.token == .newline), List.takeWhile_append_dropWhile.symm, ?_⟩
    intro l hl
    exact beq_iff_eq.1 (List.mem_takeWhile_imp (p := fun l : Lexeme => l.token == .newline) hl)
  · exact ⟨[], rfl, List.forall_mem_nil _⟩

theorem points_position (c : Cursor) : c.Points c.position := by
  obtain ⟨lines, hrest, -⟩ := c.skip_rest
  unfold position
  cases hskip : c.skip.rest with
  | nil => exact .inr rfl
  | cons l r =>
    refine .inl ⟨l, ?_, rfl⟩
    rw [hrest, hskip]
    exact List.mem_append_right _ (.head _)

/-- Where something is read, the next lexeme is among what is passed. -/
theorem Took.position_mem {c d : Cursor} {u : List Lexeme} (h : c.Took u d) :
    ∃ l ∈ u, l.start = c.position := by
  obtain ⟨l, hl, hline⟩ := h.solid
  unfold position skip
  split
  · have hdrop : (u.dropWhile (·.token == .newline)) ≠ [] := by
      intro hnil
      have := List.dropWhile_eq_nil_iff.1 hnil l hl
      exact hline (beq_iff_eq.1 this)
    obtain ⟨x, xs, hx⟩ := List.exists_cons_of_ne_nil hdrop
    have hmem : x ∈ u.dropWhile (·.token == .newline) := by
      rw [hx]
      exact .head _
    refine ⟨x, (List.dropWhile_sublist _).mem hmem, ?_⟩
    simp [h.rest, List.dropWhile_append, hx]
  · obtain ⟨x, xs, rfl⟩ := List.exists_cons_of_ne_nil (List.ne_nil_of_mem hl)
    exact ⟨x, .head _, by simp [h.rest]⟩

theorem pop?_some {c : Cursor} {p : Parsed c Lexeme} (h : c.pop? = some p) :
    ∃ lines, c.rest = lines ++ p.value :: p.next.rest ∧ (∀ l ∈ lines, l.token = .newline) ∧
      p.next.depth = c.depth ∧ p.next.finish = c.finish := by
  obtain ⟨lines, hrest, hlines⟩ := c.skip_rest
  unfold pop? at h
  split at h
  · cases h
  · rename_i l r hskip
    cases h
    exact ⟨lines, hrest.trans (congrArg _ hskip), hlines, rfl, rfl⟩

/-- The next lexeme starts at the position of the cursor. -/
theorem start_pop? {c : Cursor} {p : Parsed c Lexeme} (h : c.pop? = some p) :
    p.value.start = c.position := by
  unfold pop? at h
  split at h
  · cases h
  · rename_i l r hskip
    have hposition : c.position = l.start := by
      rw [position, hskip]
      rfl
    cases h
    exact hposition.symm

/-- A lexeme that is no line end and no open quote. -/
theorem took_pop? {c : Cursor} {p : Parsed c Lexeme} (h : c.pop? = some p)
    (hline : p.value.token ≠ .newline) (hquote : ¬ p.value.IsOpen) :
    ∃ used, c.Took used p.next ∧ p.value ∈ used := by
  obtain ⟨lines, hrest, hlines, hdepth, hfinish⟩ := pop?_some h
  have hmem : p.value ∈ lines ++ [p.value] := List.mem_append_right _ (.head _)
  refine ⟨lines ++ [p.value], ⟨⟨?_, hfinish, ?_⟩, ⟨_, hmem, hline⟩, hdepth⟩, hmem⟩
  · rw [hrest, List.append_assoc]
    rfl
  · refine List.forall_mem_append.2 ⟨fun l hl hopen => ?_, List.forall_mem_singleton.2 hquote⟩
    rw [Lexeme.IsOpen, hlines l hl] at hopen
    rcases hopen with ⟨⟨⟩⟩ | ⟨⟨⟩⟩

/-- The next lexeme is one that a fault can point to. -/
theorem points_pop? {c : Cursor} {p : Parsed c Lexeme} (h : c.pop? = some p) :
    c.Points p.value.start :=
  start_pop? h ▸ c.points_position

/-- A token that a rule asks for. -/
def IsPlain (t : Token) : Prop := t ≠ .newline ∧ t ≠ .symbol '"' ∧ t ≠ .symbol '\''

theorem took_plain {c : Cursor} {p : Parsed c Lexeme} (h : c.pop? = some p)
    (hplain : IsPlain p.value.token) : ∃ used, c.Took used p.next := by
  obtain ⟨used, htook, -⟩ := took_pop? h hplain.1 (not_or.2 hplain.2)
  exact ⟨used, htook⟩

theorem took_token? {c : Cursor} {t : Token} (ht : IsPlain t) {p : Parsed c Unit}
    (h : c.token? t = some p) : ∃ used, c.Took used p.next := by
  obtain ⟨q, hq, htoken, hnext⟩ := pop?_of_token? h
  exact hnext ▸ took_plain hq (htoken ▸ ht)

theorem took_keyword? {c : Cursor} {w : String} {p : Parsed c Unit} (h : c.keyword? w = some p) :
    ∃ used, c.Took used p.next :=
  took_token? ⟨by rintro ⟨⟩, by rintro ⟨⟩, by rintro ⟨⟩⟩ h

section

variable {c : Cursor} {s : Char} {p : Parsed c Unit} (hs : s ≠ '"' ∧ s ≠ '\'')
include hs

theorem isPlain_symbol : IsPlain (.symbol s) :=
  ⟨by rintro ⟨⟩, fun h => hs.1 (Token.symbol.inj h), fun h => hs.2 (Token.symbol.inj h)⟩

theorem took_symbol? (h : c.symbol? s = some p) : ∃ used, c.Took used p.next :=
  took_token? (isPlain_symbol hs) h

theorem took_plainSymbol? (h : c.plainSymbol? s = some p) : ∃ used, c.Took used p.next := by
  obtain ⟨q, hq, htoken, hnext⟩ := pop?_of_plainSymbol? h
  exact hnext ▸ took_plain hq (htoken ▸ isPlain_symbol hs)

theorem took_symbolEquals? (h : c.symbolEquals? s = some p) : ∃ used, c.Took used p.next := by
  obtain ⟨q, l, hq, htoken, hequals, hrest, hnext⟩ := pop?_of_symbolEquals? h
  obtain ⟨used, htook⟩ := took_plain hq (htoken ▸ isPlain_symbol hs)
  have hclosed : ¬ l.IsOpen := by
    rw [Lexeme.IsOpen, hequals]
    decide
  rw [hnext]
  exact ⟨used ++ [l], htook.before ⟨hrest, rfl, List.forall_mem_singleton.2 hclosed⟩ rfl⟩

end

end Cursor

/-! ## Rules -/

/-- A rule that succeeds has passed some lexemes as `T` says, and has read something in `Q`; one
that fails points into the text. -/
structure Traced {c : Cursor} {β : Type} (T : Cursor → List Lexeme → Cursor → Prop)
    (Q : List Lexeme → β → Prop) (m : Except SyntaxError (Parsed c β)) : Prop where
  ok : ∀ p, m = .ok p → ∃ used, T c used p.next ∧ Q used p.value
  error : ∀ e, m = .error e → c.Points e.position

namespace Traced

variable {c d : Cursor} {β γ : Type} {Q : List Lexeme → β → Prop} {R : List Lexeme → γ → Prop}
variable {T T' : Cursor → List Lexeme → Cursor → Prop} {used u : List Lexeme}

theorem pure {p : Parsed c β} (h : T c used p.next) (hQ : Q used p.value) :
    Traced T Q (.ok p) where
  ok _ hp := by
    cases hp
    exact ⟨used, h, hQ⟩
  error := nofun

theorem fail {e : SyntaxError} (h : c.Points e.position) :
    Traced T Q (.error e : Except SyntaxError (Parsed c β)) where
  ok := nofun
  error _ he := by
    cases he
    exact h

theorem fault (f : Found → SyntaxFault) :
    Traced T Q (c.fault f : Except SyntaxError (Parsed c β)) :=
  fail c.points_position

/-- A rule that is followed at `d`, and then what is read behind it. -/
theorem bind (hd : c.Trace u d) {m : Except SyntaxError (Parsed d γ)} (hm : Traced T' R m)
    {f : Parsed d γ → Except SyntaxError (Parsed c β)}
    (hf : ∀ p used, T' d used p.next → R used p.value → Traced T Q (f p)) :
    Traced T Q (m >>= f) := by
  cases hm' : m with
  | error e => exact fail (hd.points (hm.error e hm'))
  | ok p =>
    obtain ⟨used, htook, hR⟩ := hm.ok p hm'
    exact hf p used htook hR

end Traced

namespace Cursor

theorem traced_expect (c : Cursor) {s : Char} (hs : s ≠ '"' ∧ s ≠ '\'') :
    Traced Took (fun _ _ => True) (c.expect s) := by
  unfold expect
  split
  · rename_i p hp
    obtain ⟨used, htook⟩ := took_symbol? hs hp
    exact .pure htook trivial
  · exact .fault _

/-- With the bracket that was read, one less is open. -/
theorem Took.shutClosed {c : Cursor} {u : List Lexeme} {β : Type} {p : Parsed c β}
    (h : c.Took u p.next) : c.Shut u p.closed.next :=
  ⟨⟨h.rest, h.finish, h.closed⟩, h.solid, congrArg (· - 1) h.depth⟩

theorem traced_expectClosing (c : Cursor) {s : Char} (hs : s ≠ '"' ∧ s ≠ '\'') :
    Traced Shut (fun _ _ => True) (c.expectClosing s) := by
  unfold expectClosing expect
  split
  · rename_i p hp
    obtain ⟨used, htook⟩ := took_symbol? hs hp
    exact .pure htook.shutClosed trivial
  · exact .fault _

end Cursor

end BarScript
