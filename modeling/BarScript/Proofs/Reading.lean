import BarScript.Proofs.Lexing
import BarScript.Script.Parser

/-!
# The parser, step by step

What a cursor finds in front of a lexeme, and each rule of the grammar, for expressions and for
statements, as an equation: what the parser answers, given what its parts answer.
-/

namespace BarScript

namespace Cursor

/-! ## Lexemes -/

section

variable {l : Lexeme} {r : List Lexeme} {d fin : Nat}

theorem skip_cons (h : l.token ≠ .newline) :
    (⟨l :: r, d, fin⟩ : Cursor).skip = ⟨l :: r, d, fin⟩ := by
  unfold skip
  split
  · simp [h]
  · rfl

theorem skip_nil : (⟨[], d, fin⟩ : Cursor).skip = ⟨[], d, fin⟩ := by
  unfold skip
  split <;> rfl

theorem pop?_nil : (⟨[], d, fin⟩ : Cursor).pop? = none := by
  have hskip : (⟨[], d, fin⟩ : Cursor).skip.rest = [] := congrArg Cursor.rest skip_nil
  unfold pop?
  split
  · rfl
  · rename_i hrest
    rw [hskip] at hrest
    cases hrest

theorem pop?_cons (h : l.token ≠ .newline) :
    (⟨l :: r, d, fin⟩ : Cursor).pop? = some ⟨l, ⟨r, d, fin⟩, Nat.lt_succ_self _⟩ := by
  have hskip : (⟨l :: r, d, fin⟩ : Cursor).skip.rest = l :: r := congrArg Cursor.rest (skip_cons h)
  unfold pop?
  split
  · rename_i hrest
    rw [hskip] at hrest
    cases hrest
  · rename_i hrest
    rw [hskip] at hrest
    cases hrest
    rfl

theorem token?_nil (t : Token) : (⟨[], d, fin⟩ : Cursor).token? t = none := by
  rw [token?, pop?_nil]

theorem token?_cons (h : l.token ≠ .newline) (t : Token) :
    (⟨l :: r, d, fin⟩ : Cursor).token? t =
      if l.token = t then some ⟨(), ⟨r, d, fin⟩, Nat.lt_succ_self _⟩ else none := by
  rw [token?, pop?_cons h]
  rfl

theorem token?_self (h : l.token ≠ .newline) :
    ∃ p, (⟨l :: r, d, fin⟩ : Cursor).token? l.token = some p ∧ p.next = ⟨r, d, fin⟩ := by
  rw [token?_cons h, if_pos rfl]
  exact ⟨_, rfl, rfl⟩

theorem plainSymbol?_nil (s : Char) : (⟨[], d, fin⟩ : Cursor).plainSymbol? s = none := by
  rw [plainSymbol?, pop?_nil]

theorem plainSymbol?_cons (h : l.token ≠ .newline) (s : Char) :
    (⟨l :: r, d, fin⟩ : Cursor).plainSymbol? s =
      if l.token = .symbol s ∧ ¬(⟨r, d, fin⟩ : Cursor).touches l.stop '=' then
        some ⟨(), ⟨r, d, fin⟩, Nat.lt_succ_self _⟩
      else none := by
  rw [plainSymbol?, pop?_cons h]
  rfl

theorem symbolEquals?_nil (s : Char) : (⟨[], d, fin⟩ : Cursor).symbolEquals? s = none := by
  rw [symbolEquals?, pop?_nil]

theorem symbolEquals?_of_ne (h : l.token ≠ .newline) {s : Char} (hs : l.token ≠ .symbol s) :
    (⟨l :: r, d, fin⟩ : Cursor).symbolEquals? s = none := by
  rw [symbolEquals?, pop?_cons h]
  exact if_neg fun h => hs h.1

theorem symbolEquals?_of_apart (h : l.token ≠ .newline) {s : Char}
    (hapart : (⟨r, d, fin⟩ : Cursor).touches l.stop '=' = false) :
    (⟨l :: r, d, fin⟩ : Cursor).symbolEquals? s = none := by
  rw [symbolEquals?, pop?_cons h]
  exact if_neg fun h => by simp [hapart] at h

theorem symbolEquals?_cons {s f f' : Char} {i j k : Nat} :
    (⟨⟨.symbol s, f, i, j⟩ :: ⟨.symbol '=', f', j, k⟩ :: r, d, fin⟩ : Cursor).symbolEquals? s =
      some ⟨(), ⟨r, d, fin⟩, Nat.lt_succ_of_lt (Nat.lt_succ_self _)⟩ := by
  rw [symbolEquals?, pop?_cons (by rintro ⟨⟩)]
  simp [touches]

theorem touches_cons (s : Nat) (c : Char) :
    (⟨l :: r, d, fin⟩ : Cursor).touches s c = (l.start == s && l.token == .symbol c) := rfl

end

section

variable {c : Cursor} {s : Char} {p : Parsed c Unit}

/-- A token that is found is the next lexeme. -/
theorem pop?_of_token? {t : Token} (h : c.token? t = some p) :
    ∃ q, c.pop? = some q ∧ q.value.token = t ∧ p.next = q.next := by
  unfold token? at h
  split at h
  · rename_i q hq
    split at h <;> cases h
    rename_i htoken
    exact ⟨q, hq, htoken, rfl⟩
  · cases h

theorem pop?_of_plainSymbol? (h : c.plainSymbol? s = some p) :
    ∃ q, c.pop? = some q ∧ q.value.token = .symbol s ∧ p.next = q.next := by
  unfold plainSymbol? at h
  split at h
  · rename_i q hq
    split at h <;> cases h
    rename_i hplain
    exact ⟨q, hq, hplain.1, rfl⟩
  · cases h

/-- A symbol and an equals sign that are found together are the next two lexemes. -/
theorem pop?_of_symbolEquals? (h : c.symbolEquals? s = some p) :
    ∃ q l, c.pop? = some q ∧ q.value.token = .symbol s ∧ l.token = .symbol '=' ∧
      q.next.rest = l :: p.next.rest ∧ p.next = { q.next with rest := p.next.rest } := by
  unfold symbolEquals? at h
  split at h
  · rename_i q hq
    split at h
    · rename_i hequals
      obtain ⟨hsymbol, htouches⟩ := hequals
      split at h <;> cases h
      rename_i l r hrest
      rw [touches, hrest] at htouches
      have hequals : l.token = .symbol '=' := by
        simpa using (Bool.and_eq_true_iff.1 htouches).2
      exact ⟨q, l, hq, hsymbol, hequals, hrest, rfl⟩
    · cases h
  · cases h

end

/-- The place in front of the text `cs`, which starts at the byte `s`, with `d` open brackets. -/
def before (fin d s : Nat) (cs : List Char) : Cursor := ⟨Token.lexemes s cs, d, fin⟩

theorem before_nil (fin d s : Nat) : before fin d s [] = ⟨[], d, fin⟩ := by
  rw [before, Token.lexemes]

/-- What starts later does not touch. -/
theorem touches_before {i s : Nat} (h : i < s) (fin d : Nat) (cs : List Char) (c : Char) :
    (before fin d s cs).touches i c = false := by
  unfold before touches
  cases hls : Token.lexemes s cs with
  | nil => rfl
  | cons l ls =>
    have hstart : s ≤ l.start := Token.le_start (hls ▸ List.mem_cons_self)
    have hne : l.start ≠ i := by omega
    simp [hne]

section

variable {c : Char} (hc : Token.isMark c = true) (fin d s : Nat) (cs : List Char)

theorem before_blank : before fin d s (' ' :: cs) = before fin d (s + 1) cs := by
  rw [before, Token.lexemes_blank]
  rfl

include hc

theorem before_mark :
    before fin d s (c :: cs) = ⟨⟨.symbol c, c, s, s + 1⟩ :: Token.lexemes (s + 1) cs, d, fin⟩ := by
  rw [before, Token.lexemes_mark hc]

theorem symbol?_mark :
    ∃ p, (before fin d s (c :: cs)).symbol? c = some p ∧ p.next = before fin d (s + 1) cs := by
  rw [before_mark hc]
  exact token?_self (by rintro ⟨⟩)

theorem expectClosing_mark :
    ∃ p, (before fin (d + 1) s (c :: cs)).expectClosing c = .ok p ∧
      p.next = before fin d (s + 1) cs := by
  obtain ⟨⟨v, next, hlater⟩, hp, rfl⟩ := symbol?_mark hc fin (d + 1) s cs
  rw [expectClosing, expect, hp]
  exact ⟨_, rfl, rfl⟩

end

/-- An equals sign between blanks. -/
theorem plainSymbol?_equals (fin d s : Nat) (cs : List Char) :
    ∃ p, (before fin d s (' ' :: '=' :: ' ' :: cs)).plainSymbol? '=' = some p ∧
      p.next = before fin d (s + 3) cs := by
  have hapart := touches_before (Nat.lt_succ_self (s + 2)) fin d cs '='
  rw [before_blank, before_mark (by decide), Token.lexemes_blank,
    plainSymbol?_cons (by rintro ⟨⟩), if_pos ⟨rfl, Bool.eq_false_iff.1 hapart⟩]
  exact ⟨_, rfl, rfl⟩

end Cursor

/-! ## The rules of the grammar -/

theorem Parsed.ext {c : Cursor} {β : Type} {p q : Parsed c β} (hvalue : p.value = q.value)
    (hnext : p.next = q.next) : p = q := by
  obtain ⟨v, d, hlater⟩ := p
  obtain rfl : v = q.value := hvalue
  obtain rfl : d = q.next := hnext
  rfl

/-- It goes on with what was read. -/
theorem bind_of_ok {ε β γ : Type} {m : Except ε β} {x : β} (h : m = .ok x) (f : β → Except ε γ) :
    m >>= f = f x := by
  rw [h]
  rfl

/-- What was read, and how it goes on. -/
theorem ok_of_bind {ε β γ : Type} {m : Except ε β} {f : β → Except ε γ} {y : γ}
    (h : m >>= f = .ok y) : ∃ x, m = .ok x ∧ f x = .ok y := by
  cases m with
  | error e => cases h
  | ok x => exact ⟨x, rfl, h⟩

/-- A primary with the brackets behind it. -/
def bracketed (c : Cursor) : Except SyntaxError (Parsed c Expr) := do
  let e ← primary c
  historyFrom c e

section

variable {c : Cursor} {t : Tier}

theorem expression_of_chain {p : Parsed c Expr} (h : chain .or c = .ok p)
    (hmark : p.next.symbol? '?' = none) : expression c = .ok p := by
  rw [expression, bind_of_ok h, hmark]
  rfl

theorem expression_ternary {p : Parsed c Expr} (h : chain .or c = .ok p)
    {mark : Parsed p.next Unit} (hmark : p.next.symbol? '?' = some mark)
    {yes : Parsed mark.opened.next Expr} (hyes : expression mark.opened.next = .ok yes)
    {colon : Parsed yes.next Unit} (hcolon : yes.next.expectClosing ':' = .ok colon)
    {no : Parsed colon.next Expr} (hno : expression colon.next = .ok no) :
    expression c = .ok (p.andThen (mark.opened.andThen (yes.andThen (colon.andThen
      (no.map fun n => .ternary p.value yes.value n))))) := by
  rw [expression, bind_of_ok h, hmark]
  dsimp only
  rw [bind_of_ok hyes, bind_of_ok hcolon]
  exact bind_of_ok hno _

theorem chain_of_operand {p : Parsed c Expr} (h : operand t c = .ok p) :
    chain t c = chainFrom t c p := by
  rw [chain, h]
  rfl

theorem chainFrom_none {p : Parsed c Expr} (h : t.op? p.next = none) :
    chainFrom t c p = .ok p := by
  rw [chainFrom, h]

theorem chainFrom_some {p : Parsed c Expr} {op : Parsed p.next BinaryOp}
    (h : t.op? p.next = some op) {right : Parsed op.next Expr}
    (hright : operand t op.next = .ok right) :
    chainFrom t c p = chainFrom t c (p.andThen (op.andThen (right.map fun r =>
      .binary op.value p.value r))) := by
  rw [chainFrom, h]
  exact bind_of_ok hright _

theorem negation_not {p : Parsed c Unit} (h : c.keyword? "not" = some p)
    {e : Parsed p.next Expr} (he : negation p.next = .ok e) :
    negation c = .ok (p.andThen (e.map (.unary .not))) := by
  rw [negation, h]
  exact bind_of_ok he _

theorem negation_chain (h : c.keyword? "not" = none) : negation c = chain .comparison c := by
  rw [negation, h]

theorem signed_minus {p : Parsed c Unit} (h : c.symbol? '-' = some p)
    {e : Parsed p.next Expr} (he : signed p.next = .ok e) :
    signed c = .ok (p.andThen (e.map Expr.negated)) := by
  rw [signed, h]
  exact bind_of_ok he _

/-- A plus sign means nothing. -/
theorem signed_plus (hminus : c.symbol? '-' = none) {p : Parsed c Unit}
    (hplus : c.symbol? '+' = some p) {e : Parsed p.next Expr} (he : signed p.next = .ok e) :
    signed c = .ok (p.andThen e) := by
  rw [signed, hminus]
  dsimp only
  rw [hplus]
  exact bind_of_ok he _

theorem signed_bracketed (h : c.symbol? '-' = none) (h' : c.symbol? '+' = none) :
    signed c = bracketed c := by
  rw [signed, h]
  dsimp only
  rw [h']
  rfl

theorem bracketed_of_primary {p : Parsed c Expr} (h : primary c = .ok p) :
    bracketed c = historyFrom c p := by
  rw [bracketed, h]
  rfl

theorem historyFrom_none {p : Parsed c Expr} (h : p.next.symbol? '[' = none) :
    historyFrom c p = .ok p := by
  rw [historyFrom, h]

theorem historyFrom_some {p : Parsed c Expr} {bracket : Parsed p.next Unit}
    (h : p.next.symbol? '[' = some bracket) {offset : Parsed bracket.opened.next Expr}
    (hoffset : expression bracket.opened.next = .ok offset)
    {closing : Parsed offset.next Unit} (hclosing : offset.next.expectClosing ']' = .ok closing) :
    historyFrom c p = historyFrom c (p.andThen (bracket.opened.andThen (offset.andThen
      (closing.map fun _ => .history p.value offset.value p.next.position)))) := by
  rw [historyFrom, h]
  dsimp only
  rw [bind_of_ok hoffset]
  exact bind_of_ok hclosing _

end

/-! ## Primaries -/

section

variable {r : List Lexeme} {d fin i j : Nat} {f : Char}

theorem primary_number (l : Literal) :
    primary ⟨⟨.number l, f, i, j⟩ :: r, d, fin⟩ =
      .ok ⟨.number l, ⟨r, d, fin⟩, Nat.lt_succ_self _⟩ := by
  rw [primary, Cursor.pop?_cons (by rintro ⟨⟩)]
  rfl

theorem primary_text (t : String) :
    primary ⟨⟨.text t, f, i, j⟩ :: r, d, fin⟩ =
      .ok ⟨.text t, ⟨r, d, fin⟩, Nat.lt_succ_self _⟩ := by
  rw [primary, Cursor.pop?_cons (by rintro ⟨⟩)]
  rfl

theorem primary_flag (b : Bool) :
    primary ⟨⟨.word (if b then "true" else "false"), f, i, j⟩ :: r, d, fin⟩ =
      .ok ⟨.flag b, ⟨r, d, fin⟩, Nat.lt_succ_self _⟩ := by
  rw [primary, Cursor.pop?_cons (by rintro ⟨⟩)]
  cases b <;> rfl

theorem primary_parenthesis {e : Parsed ⟨r, d + 1, fin⟩ Expr}
    (he : expression ⟨r, d + 1, fin⟩ = .ok e) {closing : Parsed e.next Unit}
    (hclosing : e.next.expectClosing ')' = .ok closing) :
    ∃ p, primary ⟨⟨.symbol '(', f, i, j⟩ :: r, d, fin⟩ = .ok p ∧ p.value = e.value ∧
      p.next = closing.next := by
  rw [primary, Cursor.pop?_cons (by rintro ⟨⟩)]
  dsimp only [bind, Except.bind, Parsed.opened]
  rw [he]
  dsimp only
  rw [hclosing]
  exact ⟨_, rfl, rfl, rfl⟩

theorem dottedName_word {w : String} (hw : w ∉ keywords) :
    ∃ p, (⟨⟨.word w, f, i, j⟩ :: r, d, fin⟩ : Cursor).dottedName = .ok p ∧
      p.value = ((members w j r).1, (members w j r).2.1) ∧
      p.next = ⟨(members w j r).2.2, d, fin⟩ := by
  unfold Cursor.dottedName
  rw [Cursor.pop?_cons (by rintro ⟨⟩)]
  dsimp only
  rw [if_neg hw]
  exact ⟨_, rfl, rfl, rfl⟩

/-- A name that is no keyword: a call, a variable, or `na`. -/
theorem primary_dotted {w : String} (hw : w ∉ keywords)
    {name : Parsed ⟨⟨.word w, f, i, j⟩ :: r, d, fin⟩ (String × Nat)}
    (hname : (⟨⟨.word w, f, i, j⟩ :: r, d, fin⟩ : Cursor).dottedName = .ok name) :
    primary ⟨⟨.word w, f, i, j⟩ :: r, d, fin⟩ =
      if name.next.touches name.value.2 '(' then do
        let bracket ← name.next.expect '('
        let args ← arguments bracket.opened.next
        return name.andThen (bracket.opened.andThen (args.map fun args =>
          .call ⟨name.value.1, args, i⟩))
      else if name.value.1 = "na" then .ok (name.map fun _ => .na)
      else .ok (name.map fun n => .name n.1 i) := by
  rw [primary, Cursor.pop?_cons (by rintro ⟨⟩)]
  dsimp only
  split
  case h_7 h =>
    cases h
    exact absurd (by decide) hw
  case h_8 h =>
    cases h
    exact absurd (by decide) hw
  case h_9 h =>
    rw [hname]
    rfl
  all_goals simp_all

theorem primary_word {w : String} (hw : w ∉ keywords)
    (happly : (⟨(members w j r).2.2, d, fin⟩ : Cursor).touches (members w j r).2.1 '(' = false) :
    ∃ p, primary ⟨⟨.word w, f, i, j⟩ :: r, d, fin⟩ = .ok p ∧
      p.value = (if (members w j r).1 = "na" then .na else .name (members w j r).1 i) ∧
      p.next = ⟨(members w j r).2.2, d, fin⟩ := by
  obtain ⟨⟨name, next, hlater⟩, hname, hvalue, hnext⟩ := dottedName_word hw
  dsimp only at hvalue hnext
  subst hvalue hnext
  rw [primary_dotted hw hname]
  dsimp only
  rw [happly, if_neg (by decide)]
  split
  · exact ⟨_, rfl, rfl, rfl⟩
  · exact ⟨_, rfl, rfl, rfl⟩

theorem primary_call {w : String} (hw : w ∉ keywords) {f' : Char} {k : Nat} {r' : List Lexeme}
    (hmembers : (members w j r).2.2 = ⟨.symbol '(', f', (members w j r).2.1, k⟩ :: r')
    {as : Parsed ⟨r', d + 1, fin⟩ (List (Arg Expr))}
    (has : arguments ⟨r', d + 1, fin⟩ = .ok as) :
    ∃ p, primary ⟨⟨.word w, f, i, j⟩ :: r, d, fin⟩ = .ok p ∧
      p.value = .call ⟨(members w j r).1, as.value, i⟩ ∧ p.next = as.next := by
  obtain ⟨⟨name, next, hlater⟩, hname, hvalue, hnext⟩ := dottedName_word hw
  dsimp only at hvalue hnext
  rw [hmembers] at hnext
  subst hvalue hnext
  rw [primary_dotted hw hname]
  dsimp only
  rw [Cursor.touches_cons, if_pos (by simp)]
  dsimp only [bind, Except.bind]
  rw [Cursor.expect, Cursor.symbol?, Cursor.token?_cons (by rintro ⟨⟩), if_pos rfl]
  dsimp only [Parsed.opened]
  rw [has]
  exact ⟨_, rfl, rfl, rfl⟩

end

/-! ## Arguments -/

section

variable {c : Cursor}

theorem arguments_nil {p : Parsed c Unit} (h : c.symbol? ')' = some p) :
    arguments c = .ok (p.closed.map fun _ => []) := by
  rw [arguments, h]

theorem arguments_cons (h : c.symbol? ')' = none) {a : Parsed c (Arg Expr)}
    (ha : argument c = .ok a) {comma : Parsed a.next Unit}
    (hcomma : a.next.symbol? ',' = some comma) {more : Parsed comma.next (List (Arg Expr))}
    (hmore : arguments comma.next = .ok more) :
    arguments c = .ok (a.andThen (comma.andThen (more.map (a.value :: ·)))) := by
  rw [arguments, h]
  dsimp only
  rw [bind_of_ok ha, hcomma]
  exact bind_of_ok hmore _

theorem arguments_last (h : c.symbol? ')' = none) {a : Parsed c (Arg Expr)}
    (ha : argument c = .ok a) (hcomma : a.next.symbol? ',' = none) {closing : Parsed a.next Unit}
    (hclosing : a.next.expectClosing ')' = .ok closing) :
    arguments c = .ok (a.andThen (closing.map fun _ => [a.value])) := by
  rw [arguments, h]
  dsimp only
  rw [bind_of_ok ha, hcomma]
  exact bind_of_ok hclosing _

theorem argument_positional (h : c.argName? = none) {e : Parsed c Expr}
    (he : expression c = .ok e) : argument c = .ok (e.map fun v => ⟨none, v, c.position⟩) := by
  rw [argument, h]
  exact bind_of_ok he _

theorem argument_named {name : Parsed c String} (h : c.argName? = some name)
    {e : Parsed name.next Expr} (he : expression name.next = .ok e) :
    argument c = .ok (name.andThen (e.map fun v => ⟨some name.value, v, c.position⟩)) := by
  rw [argument, h]
  exact bind_of_ok he _

end

/-! ## Statements -/

namespace Cursor

variable {c : Cursor} {seen : List String} {key : Parsed c String} {value : Parsed c Expr}

theorem fieldValue_colon {colon : Parsed key.next Unit}
    (hcolon : key.next.plainSymbol? ':' = some colon) {e : Parsed colon.next Expr}
    (he : expression colon.next = .ok e) :
    c.fieldValue key = .ok (key.andThen (colon.andThen e)) := by
  rw [fieldValue, hcolon]
  exact bind_of_ok he _

theorem fieldValue_bare (h : key.next.plainSymbol? ':' = none) :
    c.fieldValue key = .ok (key.map fun k => .name k c.position) := by
  rw [fieldValue, h]
  rfl

theorem fields_nil {p : Parsed c Unit} (h : c.symbol? '\x7d' = some p) :
    c.fields seen = .ok (p.closed.map fun _ => []) := by
  rw [fields, h]

section

variable (h : c.symbol? '\x7d' = none) (hkey : c.key = .ok key) (hfresh : key.value ∉ seen)
  (hvalue : c.fieldValue key = .ok value)
include h hkey hfresh hvalue

theorem fields_cons {comma : Parsed value.next Unit} (hcomma : value.next.symbol? ',' = some comma)
    {more : Parsed comma.next (List (String × Expr))}
    (hmore : fields (key.value :: seen) comma.next = .ok more) :
    c.fields seen =
      .ok (value.andThen (comma.andThen (more.map ((key.value, value.value) :: ·)))) := by
  rw [fields, h]
  dsimp only
  rw [bind_of_ok hkey, if_neg hfresh, bind_of_ok hvalue, hcomma]
  exact bind_of_ok hmore _

theorem fields_last (hcomma : value.next.symbol? ',' = none) {closing : Parsed value.next Unit}
    (hclosing : value.next.expectClosing '\x7d' = .ok closing) :
    c.fields seen = .ok (value.andThen (closing.map fun _ => [(key.value, value.value)])) := by
  rw [fields, h]
  dsimp only
  rw [bind_of_ok hkey, if_neg hfresh, bind_of_ok hvalue, hcomma]
  exact bind_of_ok hclosing _

end

theorem tuple_of {position : Nat} {names : Parsed c (List String)} (hnames : c.names = .ok names)
    {closing : Parsed names.next Unit} (hclosing : names.next.expectClosing ']' = .ok closing)
    {equals : Parsed closing.next Unit} (hequals : closing.next.plainSymbol? '=' = some equals)
    {call : Parsed equals.next Call} (hcall : equals.next.tupleCall = .ok call) :
    c.tuple position = .ok (names.andThen (closing.andThen (equals.andThen (call.map fun call =>
      .unpack names.value call position)))) := by
  rw [tuple, bind_of_ok hnames, bind_of_ok hclosing, hequals]
  exact bind_of_ok hcall _

/-- The next word, and the place behind it. -/
def word? (c : Cursor) : Option (String × Cursor) :=
  match c.pop? with
  | some p =>
    match p.value.token with
    | .word w => some (w, p.next)
    | _ => none
  | none => none

/-- A type word is passed if another word follows it. -/
theorem skipType_eq (c : Cursor) : c.skipType =
    match c.word? with
    | some (w, d) => if w ∈ typeWords ∧ d.word?.isSome then d else c
    | none => c := by
  unfold skipType
  cases hp : c.pop? with
  | none => simp [word?, hp]
  | some p =>
    cases htoken : p.value.token with
    | word w =>
      cases hq : p.next.pop? with
      | none => simp [word?, hp, htoken, hq]
      | some q => cases htoken' : q.value.token <;> simp [word?, hp, htoken, hq, htoken']
    | _ => simp [word?, hp, htoken]

theorem assignment?_none_of_error {d : Cursor} (hd : c.skipType = d) {e : SyntaxError}
    (h : d.name = .error e) (position : Nat) : c.assignment? position = none := by
  subst hd
  rw [assignment?, h]

section

variable {d : Cursor} (hd : c.skipType = d) {name : Parsed d String} (hname : d.name = .ok name)
  (position : Nat)
include hd hname

/-- A declaration, read behind a type word. -/
theorem declaration_of (kind : DeclKind) {equals : Parsed name.next Unit}
    (hequals : name.next.plainSymbol? '=' = some equals) {e : Parsed equals.next Expr}
    (he : expression equals.next = .ok e) :
    ∃ p, c.declaration kind position = .ok p ∧
      p.value = .declare kind name.value e.value position ∧ p.next = e.next := by
  subst hd
  rw [declaration, bind_of_ok hname, hequals]
  exact ⟨_, bind_of_ok he _, rfl, rfl⟩

theorem assignment?_of_colon {sign : Parsed name.next Unit}
    (hsign : name.next.symbolEquals? ':' = some sign) {e : Parsed sign.next Expr}
    (he : expression sign.next = .ok e) :
    ∃ p, c.assignment? position = some (.ok p) ∧
      p.value = .reassign name.value e.value position ∧ p.next = e.next := by
  subst hd
  rw [assignment?, hname]
  dsimp only
  rw [hsign]
  exact ⟨_, congrArg some (bind_of_ok he _), rfl, rfl⟩

theorem assignment?_of_equals (hcolon : name.next.symbolEquals? ':' = none)
    {sign : Parsed name.next Unit} (hsign : name.next.plainSymbol? '=' = some sign)
    {e : Parsed sign.next Expr} (he : expression sign.next = .ok e) :
    ∃ p, c.assignment? position = some (.ok p) ∧
      p.value = .declare .binding name.value e.value position ∧ p.next = e.next := by
  subst hd
  rw [assignment?, hname]
  dsimp only
  rw [hcolon]
  dsimp only
  rw [hsign]
  exact ⟨_, congrArg some (bind_of_ok he _), rfl, rfl⟩

theorem assignment?_none_of_name (hcolon : name.next.symbolEquals? ':' = none)
    (hequals : name.next.plainSymbol? '=' = none) : c.assignment? position = none := by
  subst hd
  rw [assignment?, hname]
  dsimp only
  rw [hcolon]
  dsimp only
  rw [hequals]

end

theorem statements_of_skipSeparators {d : Cursor} (h : c.skipSeparators = d.skipSeparators) :
    c.statements = d.statements := by
  rw [statements, statements]
  dsimp only
  rw [h]

theorem statements_of {d : Cursor} (hd : c.skipSeparators = d) (hne : d.rest ≠ [])
    {s : Parsed d Statement} (hs : d.statement = .ok s) (hend : s.next.endOfStatement = .ok ()) :
    c.statements = s.next.statements.map (s.value :: ·) := by
  subst hd
  rw [statements]
  dsimp only
  rw [if_neg (by rwa [List.isEmpty_iff]), bind_of_ok hs, bind_of_ok hend]
  cases s.next.statements <;> rfl

end Cursor

end BarScript
