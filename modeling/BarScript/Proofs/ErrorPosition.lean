import BarScript.Proofs.Blame
import BarScript.Proofs.Rendering
import BarScript.Proofs.StatementPlaces

/-!
# Errors point into the source

The position of a syntax or resolution error cuts no character of the source, so the error can be
shown (`compile_error_shown`). A resolution error is in the passage of the first statement that does
not compile, unless it is about a literal and reported at the start of the text
(`compile_error_within`).
-/

namespace BarScript

open Text (Behind byteSize lineNumber)

/-! ## Positions and lines -/

namespace Text

/-- Cut later, a text keeps more in front. -/
theorem byteSplit_mono {n m : Nat} (h : n ≤ m) (cs : List Char) :
    (byteSplit n cs).1 <+: (byteSplit m cs).1 := by
  induction cs generalizing n m with
  | nil => exact List.prefix_refl _
  | cons c cs ih =>
    rw [byteSplit, byteSplit]
    split
    · rename_i hn
      rw [if_pos (Nat.le_trans hn h)]
      exact (List.prefix_cons_inj c).2 (ih (Nat.sub_le_sub_right h _))
    · exact List.nil_prefix

theorem lineNumber_mono {n m : Nat} (h : n ≤ m) (cs : List Char) :
    lineNumber n cs ≤ lineNumber m cs :=
  Nat.succ_le_succ ((byteSplit_mono h cs).sublist.count_le _)

end Text

namespace Cursor

variable {cs : List Char} {c : Cursor}

/-- Where a lexeme starts, and where the text ends, no character is cut. -/
theorem Points.behind {n : Nat} (h : c.Points n) (hc : c.Stands cs) (hfinish : c.finish = byteSize cs) :
    ∃ rest, Behind cs n rest := by
  rcases h with ⟨l, hl, rfl⟩ | rfl
  · obtain ⟨own, rest, hbehind, -⟩ := hc l hl
    exact ⟨_, hbehind⟩
  · exact ⟨[], hfinish ▸ .finish cs⟩

end Cursor

/-! ## Marks of a statement -/

/-- A field of a record has no value of its own but stands for the variable that its key names. -/
def Statement.Shorthand (st : Statement) (key : String) (position : Nat) : Prop :=
  ∃ fields p, st = .result (.named fields) p ∧ (key, .name key position) ∈ fields

/-- The name `n` can be read at the position, or it is the quoted key of a field without a value. -/
def Statement.Shows (st : Statement) (cs : List Char) (position : Nat) (n : String) : Prop :=
  Text.Spells cs position n ∨ st.Shorthand n position ∧ Text.Quotes cs position n

theorem Statement.Stands.mark {cs : List Char} {used : List Lexeme} {st : Statement}
    (h : st.Stands cs used) {m : Mark} (hm : m ∈ st.marks) :
    (∃ l ∈ used, l.start = m.position) ∧ ∀ n ∈ m.name, st.Shows cs m.position n := by
  have plain (h : ∀ m ∈ st.marks, m.Stands cs used) : (∃ l ∈ used, l.start = m.position) ∧
      ∀ n ∈ m.name, st.Shows cs m.position n :=
    ⟨(h m hm).1, fun n hn => .inl ((h m hm).2 n hn)⟩
  cases st with
  | declare => exact plain h
  | reassign => exact plain h
  | unpack => exact plain h
  | expr => exact plain h
  | result value p =>
    obtain ⟨hstart, hvalue⟩ := h
    rcases List.mem_cons.1 hm with rfl | hm
    · exact ⟨hstart, nofun⟩
    cases value with
    | single e => exact ⟨(hvalue m hm).1, fun n hn => .inl ((hvalue m hm).2 n hn)⟩
    | named fields =>
      obtain ⟨⟨key, value⟩, hx, hm : m ∈ value.marks⟩ := List.mem_flatMap.1 hm
      have hfield : value.StandsFor cs used key := hvalue _ hx
      rcases hfield with hstands | ⟨q, rfl, hstart, hquotes⟩
      · exact ⟨(hstands m hm).1, fun n hn => .inl ((hstands m hm).2 n hn)⟩
      · obtain rfl := List.mem_singleton.1 hm
        refine ⟨hstart, ?_⟩
        rintro _ ⟨⟩
        exact .inr ⟨⟨fields, p, rfl, hx⟩, hquotes⟩

/-! ## Parsing -/

theorem parse_error {source : String} {e : SyntaxError} (h : parse source = .error e) :
    ∃ rest, Behind source.toList e.position rest := by
  have hstands := Cursor.stands_ofText source
  rcases Cursor.reads_or_points _ hstands with ⟨ps, -, -, hss⟩ | ⟨e', hpoints, -, he⟩
  · exact nomatch hss.symm.trans h
  · obtain rfl := Except.error.inj (he.symm.trans h)
    exact hpoints.behind hstands rfl

/-- Every statement of a source stands in its passage. -/
theorem passages_of_parse {source : String} {ss : List Statement} (h : parse source = .ok ss) :
    ∃ ps, (Cursor.ofText source).passages = .ok ps ∧ ps.map (·.statement) = ss ∧
      ∀ p ∈ ps, p.Holds source.toList := by
  obtain ⟨ps, hreads, hps, hss⟩ := reads_of_parse h
  exact ⟨ps, hps, hss,
    hreads.holds (Cursor.stands_ofText source) (Cursor.ordered_ofText source) rfl⟩

/-! ## Compiling -/

/-- The error is in the passage, where no character is cut; a name that it calls unknown can be
read there. -/
structure Passage.Explains (p : Passage) (cs : List Char) (e : ResolveError) : Prop where
  start_le : p.start ≤ e.position
  lt_stop : e.position < p.stop
  behind : ∃ rest, Behind cs e.position rest
  shows : ∀ n ∈ e.fault.unknown?, p.statement.Shows cs e.position n

theorem Passage.Holds.explains {cs : List Char} {p : Passage} {e : ResolveError}
    (h : p.Holds cs) (he : e.At p.statement.marks) :
    p.Explains cs e ∨ e.position = 0 ∧ e.fault.Unplaced := by
  obtain ⟨used, hstands, hbetween⟩ := h
  refine he.imp_left ?_
  rintro ⟨m, hm, hposition, hname⟩
  obtain ⟨⟨l, hl, hstart⟩, hshows⟩ := hstands.mark hm
  obtain ⟨⟨own, rest, hbehind, -⟩, hle, hlt⟩ := hbetween l hl
  have hplace := hstart.trans hposition
  rw [hplace] at hle hlt hbehind
  exact ⟨hle, hlt, ⟨_, hbehind⟩, fun n hn => hposition ▸ hshows n (hname n hn)⟩

/-- **A resolution error** is in the passage of the first statement that is rejected, or it is about
a literal. -/
theorem compileStatements_passage {source : String} {ss : List Statement} {e : ResolveError}
    (hparse : parse source = .ok ss) (h : compileStatements ss = .error e) :
    ∃ ps k p, (Cursor.ofText source).passages = .ok ps ∧ ps.map (·.statement) = ss ∧
      ps[k]? = some p ∧ FirstRejected ss k e ∧
      (p.Explains source.toList e ∨ e.position = 0 ∧ e.fault.Unplaced) := by
  obtain ⟨ps, hps, rfl, hholds⟩ := passages_of_parse hparse
  obtain ⟨k, st, hk, hplace, hfirst⟩ := compileStatements_blame h
  rw [List.getElem?_map] at hk
  obtain ⟨p, hp, rfl⟩ := Option.map_eq_some_iff.1 hk
  exact ⟨ps, k, p, hps, rfl, hp, hfirst, (hholds p (List.mem_of_getElem? hp)).explains hplace⟩

/-- A script fails to compile because it is none, or because of one of its statements. -/
theorem compile_error_iff {source : String} {f : Failure} : compile source = .error f ↔
    (∃ e, parse source = .error e ∧ f = e.failure) ∨
      ∃ ss e, parse source = .ok ss ∧ compileStatements ss = .error e ∧ f = e.failure := by
  unfold compile
  cases parse source with
  | error e => simp [eq_comm]
  | ok ss => cases hss : compileStatements ss <;> simp [hss, eq_comm]

/-- **Every error of a source can be shown.** Its position cuts no character, and the rendering
shows the line and the column of the position. A name that the message calls unknown can be read
there, unless it is the quoted key of a field without a value. -/
theorem compile_error_shown {source : String} {f : Failure} (h : compile source = .error f) :
    ∃ d, (f = .parse d ∨ f = .compile d) ∧
      d.position ≤ byteSize source.toList ∧ (∃ rest, Behind source.toList d.position rest) ∧
      (∃ number column line, d.Shown source number column line) ∧
      ∀ n, SaysUnknown d.message n → Text.Spells source.toList d.position n ∨
        Text.Quotes source.toList d.position n ∧
          ∃ ss, parse source = .ok ss ∧ ∃ st ∈ ss, st.Shorthand n d.position := by
  rcases compile_error_iff.1 h with ⟨e, hparse, rfl⟩ | ⟨ss, e, hparse, hcompile, rfl⟩
  · obtain ⟨rest, hbehind⟩ := parse_error hparse
    exact ⟨e.diagnostic, .inl rfl, hbehind.le, ⟨rest, hbehind⟩,
      ⟨_, Diagnostic.shown_of_behind hbehind⟩,
      fun n hsays => absurd e.fault.opens_message hsays.not_opens⟩
  · obtain ⟨ps, k, p, -, rfl, hp, -, hplace⟩ := compileStatements_passage hparse hcompile
    have hmem : p.statement ∈ ps.map (·.statement) := List.mem_map_of_mem (List.mem_of_getElem? hp)
    obtain ⟨rest, hbehind⟩ : ∃ rest, Behind source.toList e.position rest := by
      rcases hplace with hexplains | ⟨hzero, -⟩
      · exact hexplains.behind
      · exact ⟨_, hzero ▸ Behind.zero _⟩
    refine ⟨⟨e.fault.message, e.position⟩, .inr rfl, hbehind.le, ⟨rest, hbehind⟩,
      ⟨_, Diagnostic.shown_of_behind hbehind⟩, fun n hsays => ?_⟩
    have hfault := hsays.unknown?_eq
    rcases hplace with hexplains | ⟨-, hliteral⟩
    · refine (hexplains.shows n hfault).imp_right ?_
      rintro ⟨hshorthand, hquotes⟩
      exact ⟨hquotes, _, hparse, _, hmem, hshorthand⟩
    · exact nomatch hliteral.unknown?.symm.trans hfault

/-- An unknown name behind characters of several bytes. -/
theorem compile_error_shown_multibyte :
    compile "// α≠β\ny = z" = .error (ResolveError.failure ⟨15, .unknownName "z"⟩) ∧
      Text.Spells "// α≠β\ny = z".toList 15 "z" := by
  have hparse : parse "// α≠β\ny = z" = .ok [.declare .binding "y" (.name "z" 15) 11] := by
    with_unfolding_all rfl
  have hcompile : compileStatements [.declare .binding "y" (.name "z" 15) 11] =
      .error ⟨15, .unknownName "z"⟩ := by with_unfolding_all rfl
  have h := compile_error_iff.2 (.inr ⟨_, _, hparse, hcompile, rfl⟩)
  obtain ⟨d, hd, -, -, -, hname⟩ := compile_error_shown h
  obtain rfl : d = ⟨(ResolveFault.unknownName "z").message, 15⟩ := by
    rcases hd with hd | hd <;> cases hd
    rfl
  refine ⟨h, (hname "z" (.inl rfl)).resolve_right ?_⟩
  rintro ⟨-, ss, hss, st, hst, fields, p, rfl, -⟩
  obtain rfl := Except.ok.inj (hparse.symm.trans hss)
  simp at hst

/-- **A resolution error is in the passage of the statement that is rejected**, and the line that is
shown is one of the lines of the passage, unless the error is about a literal, which has no
position. -/
theorem compile_error_within {source : String} {ss : List Statement} {e : ResolveError}
    (hparse : parse source = .ok ss) (h : compileStatements ss = .error e)
    (hplaced : ¬ (e.position = 0 ∧ e.fault.Unplaced)) :
    ∃ ps k p, (Cursor.ofText source).passages = .ok ps ∧ ps.map (·.statement) = ss ∧
      ps[k]? = some p ∧ FirstRejected ss k e ∧ p.start ≤ e.position ∧ e.position < p.stop ∧
      ∃ number column line,
        Diagnostic.Shown ⟨e.fault.message, e.position⟩ source number column line ∧
        lineNumber p.start source.toList ≤ number ∧ number ≤ lineNumber p.stop source.toList := by
  obtain ⟨ps, k, p, hps, hss, hp, hfirst, hplace⟩ := compileStatements_passage hparse h
  obtain ⟨hle, hlt, ⟨rest, hbehind⟩, -⟩ := hplace.resolve_right hplaced
  obtain ⟨column, line, hshown⟩ :=
    Diagnostic.shown_of_behind (d := ⟨e.fault.message, e.position⟩) hbehind
  exact ⟨ps, k, p, hps, hss, hp, hfirst, hle, hlt, _, column, line, hshown,
    Text.lineNumber_mono hle _, Text.lineNumber_mono (Nat.le_of_lt hlt) _⟩

/-- An unknown name in the second statement. -/
theorem compile_error_within_second :
    ∃ ps k p, (Cursor.ofText "x = 1\ny = z").passages = .ok ps ∧ ps[k]? = some p ∧
      FirstRejected (ps.map (·.statement)) k ⟨10, .unknownName "z"⟩ ∧ p.start ≤ 10 ∧ 10 < p.stop := by
  have hparse : parse "x = 1\ny = z" = .ok [.declare .binding "x" (.number (.ofNat 1)) 0,
      .declare .binding "y" (.name "z" 10) 6] := by with_unfolding_all rfl
  have hcompile : compileStatements [.declare .binding "x" (.number (.ofNat 1)) 0,
      .declare .binding "y" (.name "z" 10) 6] = .error ⟨10, .unknownName "z"⟩ := by
    with_unfolding_all rfl
  obtain ⟨ps, k, p, hps, hss, hp, hfirst, hle, hlt, -⟩ :=
    compile_error_within hparse hcompile (by simp)
  exact ⟨ps, k, p, hps, hp, hss ▸ hfirst, hle, hlt⟩

/-- Two assignments, of a number and of a text. -/
def assignedText : List Passage :=
  [⟨.declare .binding "x" (.number (.ofNat 1)) 0, 0, 5⟩,
    ⟨.declare .binding "y" (.text "a") 6, 6, 13⟩]

/-- **A text has no position**: where it is assigned in the second line, the error is reported in
front of the first one. -/
theorem compile_error_outside :
    (Cursor.ofText "x = 1\ny = \"a\"").passages = .ok assignedText ∧
      FirstRejected (assignedText.map (·.statement)) 1 ⟨0, .textAsValue⟩ ∧
      ∃ p, assignedText[1]? = some p ∧ 0 < p.start ∧
        lineNumber 0 "x = 1\ny = \"a\"".toList < lineNumber p.start "x = 1\ny = \"a\"".toList := by
  refine ⟨by with_unfolding_all rfl, ⟨fun j hj => ?_, by with_unfolding_all rfl⟩, _, rfl,
    by decide, by decide⟩
  rcases Nat.le_one_iff_eq_zero_or_eq_one.1 hj with rfl | rfl
  · exact ⟨_, rfl⟩
  · exact ⟨⟨[.set .bindings 0 (.number (.ofNat 1))], none, ⟨1, 1, 0, 0⟩⟩, by with_unfolding_all rfl⟩

end BarScript
