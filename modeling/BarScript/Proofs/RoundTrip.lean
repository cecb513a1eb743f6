import BarScript.Proofs.Leaves
import BarScript.Script.Parser

/-!
# The parser undoes the printer

`reads_printAt` is by induction on the expression, with a rule of `Reads` for each of its forms;
`parse_print` puts the text behind `x = `.
-/

namespace BarScript

mutual

/-- An expression as the grammar can make it: names are words with points between them, `na` is no
name, and a minus sign is no operator in front of a number. -/
inductive Expr.Printable : Expr → Prop
  | number (l : Literal) : Expr.Printable (.number l)
  | flag (b : Bool) : Expr.Printable (.flag b)
  | text (s : String) : Expr.Printable (.text s)
  | na : Expr.Printable .na
  | name {n : String} (hn : IsDotted n) (hna : n ≠ "na") (p : Nat) : Expr.Printable (.name n p)
  | history {t o : Expr} (ht : Expr.Printable t) (ho : Expr.Printable o) (p : Nat) :
      Expr.Printable (.history t o p)
  | neg {e : Expr} (he : Expr.Printable e) (hnumber : ∀ l, e ≠ .number l) :
      Expr.Printable (.unary .neg e)
  | not {e : Expr} (he : Expr.Printable e) : Expr.Printable (.unary .not e)
  | binary (op : BinaryOp) {l r : Expr} (hl : Expr.Printable l) (hr : Expr.Printable r) :
      Expr.Printable (.binary op l r)
  | ternary {c y n : Expr} (hc : Expr.Printable c) (hy : Expr.Printable y) (hn : Expr.Printable n) :
      Expr.Printable (.ternary c y n)
  | call {f : String} (hf : IsDotted f) {as : List (Arg Expr)} (has : Arg.AllPrintable as)
      (p : Nat) : Expr.Printable (.call ⟨f, as, p⟩)

/-- Arguments as the grammar can make them: a name of an argument is a single word. -/
inductive Arg.AllPrintable : List (Arg Expr) → Prop
  | nil : Arg.AllPrintable []
  | positional {e : Expr} (he : Expr.Printable e) (p : Nat) {as : List (Arg Expr)}
      (has : Arg.AllPrintable as) : Arg.AllPrintable (⟨none, e, p⟩ :: as)
  | named {n : String} (hn : Token.isWord n.toList = true) (hkeyword : n ∉ keywords) {e : Expr}
      (he : Expr.Printable e) (p : Nat) {as : List (Arg Expr)} (has : Arg.AllPrintable as) :
      Arg.AllPrintable (⟨some n, e, p⟩ :: as)

end

theorem Expr.negated_of_ne {e : Expr} (h : ∀ l, e ≠ .number l) : e.negated = .unary .neg e := by
  cases e with
  | number l => exact (h l rfl).elim
  | _ => rfl

/-- A negative number is a minus sign in front of a number. -/
theorem Reads.negative {l : Literal} (hl : l.negative = true) :
    Reads .sign l.print (.number l) := by
  obtain ⟨negative, m, e⟩ := l
  obtain rfl : negative = true := hl
  exact ((Reads.number (l := ⟨false, m, e⟩) rfl).climb (by decide)).minus

theorem ReadsArgs.printArgs_cons {a : Arg Expr} (ha : ReadsArg (Expr.printArg a) a)
    {as : List (Arg Expr)} (has : ReadsArgs (Expr.printArgs as) as) :
    ReadsArgs (Expr.printArgs (a :: as)) (a :: as) := by
  cases as with
  | nil =>
    rw [Expr.printArgs]
    exact .singleton ha
  | cons b bs =>
    rw [Expr.printArgs]
    · exact .cons ha has
    · rintro ⟨⟩

mutual

/-- A printed expression is read back at the level that it was printed for. -/
theorem reads_printAt {e : Expr} (he : e.Printable) (place : Tightness) :
    Reads place (e.printAt place) e := by
  cases he with
  | number l =>
    rw [Expr.printAt]
    split
    · rename_i hl
      exact (Reads.negative hl).parenthesize
    · rename_i hl
      exact (Reads.number (Bool.eq_false_iff.2 hl)).parenthesize
  | flag b =>
    rw [Expr.printAt]
    exact (Reads.flag b).climb place.rank_le_bracket
  | text s =>
    rw [Expr.printAt]
    exact (Reads.text s).climb place.rank_le_bracket
  | na =>
    rw [Expr.printAt]
    exact Reads.na.climb place.rank_le_bracket
  | name hn hna p =>
    rw [Expr.printAt]
    exact (Reads.name hn hna p).climb place.rank_le_bracket
  | history ht ho p =>
    rw [Expr.printAt]
    exact ((reads_printAt ht _).history (reads_printAt ho _) p).climb place.rank_le_bracket
  | neg he hnumber =>
    rw [Expr.printAt, ← Expr.negated_of_ne hnumber]
    exact (reads_printAt he _).minus.parenthesize
  | not he =>
    rw [Expr.printAt]
    exact (reads_printAt he _).not.parenthesize
  | binary op hl hr =>
    rw [Expr.printAt]
    exact ((reads_printAt hl _).binary op (reads_printAt hr _)).parenthesize
  | ternary hc hy hn =>
    rw [Expr.printAt]
    exact ((reads_printAt hc _).ternary (reads_printAt hy _) (reads_printAt hn _)).parenthesize
  | call hf has p =>
    rw [Expr.printAt, Expr.printCall]
    exact (Reads.call hf (readsArgs_printArgs has) p).climb place.rank_le_bracket

/-- Printed arguments are read back. -/
theorem readsArgs_printArgs {as : List (Arg Expr)} (has : Arg.AllPrintable as) :
    ReadsArgs (Expr.printArgs as) as := by
  cases has with
  | nil =>
    rw [Expr.printArgs]
    exact .nil
  | positional he p has =>
    refine ReadsArgs.printArgs_cons ?_ (readsArgs_printArgs has)
    rw [Expr.printArg]
    exact .positional (reads_printAt he _) p
  | named hn hkeyword he p has =>
    refine ReadsArgs.printArgs_cons ?_ (readsArgs_printArgs has)
    rw [Expr.printArg]
    exact .named hn hkeyword (reads_printAt he _) p

end

/-! ## Statements -/

namespace Cursor

variable {w : String} {f : Char} {i j d fin : Nat} {r : List Lexeme}

theorem skipType_word (hw : w ∉ typeWords) :
    (⟨⟨.word w, f, i, j⟩ :: r, d, fin⟩ : Cursor).skipType = ⟨⟨.word w, f, i, j⟩ :: r, d, fin⟩ := by
  rw [skipType, pop?_cons (by rintro ⟨⟩)]
  dsimp only
  split
  · rename_i hw' _
    cases hw'
    split
    · rw [if_neg hw]
    · rfl
  · rfl

theorem name_word (hw : w ∉ keywords) :
    ∃ p, (⟨⟨.word w, f, i, j⟩ :: r, d, fin⟩ : Cursor).name = .ok p ∧ p.value = w ∧
      p.next = ⟨r, d, fin⟩ := by
  rw [name, pop?_cons (by rintro ⟨⟩)]
  dsimp only
  rw [if_neg hw]
  exact ⟨_, rfl, rfl, rfl⟩

/-- A declaration without a keyword. -/
theorem statement_binding (hw : w ∉ keywords) (htype : w ∉ typeWords)
    (hassign : (⟨r, d, fin⟩ : Cursor).symbolEquals? ':' = none) {q : Parsed ⟨r, d, fin⟩ Unit}
    (hequals : (⟨r, d, fin⟩ : Cursor).plainSymbol? '=' = some q) {e : Parsed q.next Expr}
    (he : expression q.next = .ok e) :
    ∃ p, statement ⟨⟨.word w, f, i, j⟩ :: r, d, fin⟩ = .ok p ∧
      p.value = .declare .binding w e.value i ∧ p.next = e.next := by
  have keyword {k : String} (hk : k ∈ keywords) :
      (⟨⟨.word w, f, i, j⟩ :: r, d, fin⟩ : Cursor).keyword? k = none := by
    rw [keyword?, token?_cons (by rintro ⟨⟩), if_neg]
    rintro ⟨⟩
    exact hw hk
  have hname : ∃ p, (⟨⟨.word w, f, i, j⟩ :: r, d, fin⟩ : Cursor).skipType.name = .ok p ∧
      p.value = w ∧ p.next = ⟨r, d, fin⟩ := by
    rw [skipType_word htype]
    exact name_word hw
  obtain ⟨⟨name, next, hlater⟩, hname, hvalue, hnext⟩ := hname
  dsimp only at hvalue hnext
  subst hvalue hnext
  rw [statement, keyword (by decide), keyword (by decide), keyword (by decide), symbol?,
    token?_cons (by rintro ⟨⟩), if_neg (by rintro ⟨⟩), assignment?, hname]
  dsimp only
  rw [hassign, hequals]
  dsimp only [bind, Except.bind]
  rw [he]
  refine ⟨_, rfl, ?_, rfl⟩
  dsimp only [Parsed.andThen, Parsed.map, typed]
  rw [position, skip_cons (by rintro ⟨⟩)]
  rfl

theorem statements_nil : statements ⟨[], d, fin⟩ = .ok [] := by
  rw [statements]
  rfl

/-- A single statement. -/
theorem statements_single {l : Lexeme} (hseparator : l.token ∉ [.newline, .symbol ';'])
    {p : Parsed ⟨l :: r, d, fin⟩ Statement} (hstatement : statement ⟨l :: r, d, fin⟩ = .ok p)
    (hnext : p.next = ⟨[], d, fin⟩) : statements ⟨l :: r, d, fin⟩ = .ok [p.value] := by
  obtain ⟨s, next, hlater⟩ := p
  obtain rfl : next = _ := hnext
  have hstart : (⟨l :: r, d, fin⟩ : Cursor).skipSeparators = ⟨l :: r, d, fin⟩ := by
    rw [skipSeparators, List.dropWhile_cons_of_neg]
    simpa using hseparator
  have hend : endOfStatement ⟨[], d, fin⟩ = .ok () := by
    rw [endOfStatement, skip_nil]
    rfl
  rw [statements]
  dsimp only
  rw [hstart, List.isEmpty_cons, if_neg Bool.false_ne_true, hstatement]
  dsimp only [bind, Except.bind]
  rw [hend]
  dsimp only
  rw [statements_nil]
  rfl

end Cursor

/-- Printing an expression behind `x = ` and parsing the text gives the expression, at the
positions that it has in the text. -/
theorem parse_print (e : Expr) (he : e.Printable) :
    ∃ e', parse ("x = " ++ e.print) = .ok [.declare .binding "x" e' 0] ∧
      e'.unplaced = e.unplaced := by
  let cs := e.printAt .ternary
  let fin := Text.byteSize ("x = " ++ e.print).toList
  have htext : ("x = " ++ e.print).toList = 'x' :: ' ' :: '=' :: ' ' :: (cs ++ []) := by
    simp only [Expr.print, String.toList_append, String.toList_ofList, String.reduceToList,
      List.cons_append, List.nil_append, List.append_nil, cs]
  have hlexemes : Token.lexemes 0 ("x = " ++ e.print).toList =
      ⟨.word "x", 'x', 0, 1⟩ :: Token.lexemes 1 (' ' :: '=' :: ' ' :: (cs ++ [])) :=
    htext ▸ Token.lexemes_of_munch (n := 0) rfl 0
  obtain ⟨⟨u, next, hlater⟩, hequals, rfl⟩ := Cursor.plainSymbol?_equals fin 0 1 (cs ++ [])
  have hassign : (Cursor.before fin 0 1 (' ' :: '=' :: ' ' :: (cs ++ []))).symbolEquals? ':' =
      none := by
    rw [Cursor.before_blank, Cursor.before_mark (by decide)]
    exact Cursor.symbolEquals?_of_ne (by rintro ⟨⟩) (by rintro ⟨⟩)
  obtain ⟨⟨e', next, hlater'⟩, s, hread, hvalue, rfl⟩ :=
    (reads_printAt he .ternary fin 0 4 [] (.nothing _)).read
  obtain ⟨p, hstatement, hp, hnext⟩ := Cursor.statement_binding (w := "x") (f := 'x') (i := 0)
    (j := 1) (by decide) (by decide) hassign hequals hread
  dsimp only at hnext
  rw [Cursor.before_nil] at hnext
  refine ⟨e', ?_, hvalue⟩
  rw [parse, Cursor.ofText, hlexemes, ← hp]
  exact Cursor.statements_single (by decide) hstatement hnext

theorem parse_print_product :
    ∃ e', parse "x = -(a - b[1]) * ta.sma(close, length = 3)" = .ok [.declare .binding "x" e' 0] ∧
      e'.unplaced = .binary .mul
        (.unary .neg (.binary .sub (.name "a" 0) (.history (.name "b" 0) (.number (.ofNat 1)) 0)))
        (.call ⟨"ta.sma",
          [⟨none, .name "close" 0, 0⟩, ⟨some "length", .number (.ofNat 3), 0⟩], 0⟩) := by
  have word {n : String} (hn : Token.isWord n.toList = true) (hkeyword : n ∉ keywords)
      (hna : n ≠ "na") : (Expr.name n 0).Printable := .name (.of_word hn hkeyword) hna 0
  have hsma : IsDotted "ta.sma" :=
    ⟨['t', 'a'], [['s', 'm', 'a']], by decide, by decide, by decide +kernel, by decide⟩
  have hargs :
      Arg.AllPrintable [⟨none, .name "close" 0, 0⟩, ⟨some "length", .number (.ofNat 3), 0⟩] :=
    .positional (word (by decide) (by decide) (by decide)) 0
      (.named (by decide) (by decide) (.number _) 0 .nil)
  have hleft : (Expr.unary .neg (.binary .sub (.name "a" 0)
      (.history (.name "b" 0) (.number (.ofNat 1)) 0))).Printable :=
    .neg (.binary .sub (word (by decide) (by decide) (by decide))
      (.history (word (by decide) (by decide) (by decide)) (.number _) 0)) (by rintro _ ⟨⟩)
  exact parse_print _ (.binary .mul hleft (.call hsma hargs 0))

end BarScript
