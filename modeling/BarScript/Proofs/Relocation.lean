import BarScript.Proofs.Nesting

/-!
# The lexemes of a text in another text

A `Relocation` says where the lexemes of a text stand in another one: `place` moves the bytes, and
`rest` gives the lexemes of the other text behind those that have been read. It holds what the
parser has to see of them. What is found at a cursor is found at the relocated cursor. What is
missed is missed there too if the cursor is sealed, for inside of brackets line ends are passed over
and a search could reach what stands behind the text (`Relocation.Keeps`).
-/

namespace BarScript

/-- What is looked for from here on is found in the text, or the line ends first. -/
def Cursor.Sealed (c : Cursor) : Prop := c.depth = 0 ∨ ∃ l ∈ c.rest, l.token ≠ .newline

/-- The lexeme in front that is no line end, if it starts at the byte `n`, and those behind it. -/
def touching (n : Nat) : List Lexeme → Option (Lexeme × List Lexeme)
  | [] => none
  | l :: r => if l.start = n ∧ l.token ≠ .newline then some (l, r) else none

/-- How the lexemes of a text stand in another text. The parser reads the same in both if each
lexeme that it meets has its counterpart, and if what touches in one text touches in the other. -/
structure Relocation where
  /-- Where the bytes of the text are. -/
  place : Nat → Nat
  lexeme : Lexeme → Lexeme
  /-- What stands from a place on, given the lexemes of the text from there on. -/
  rest : List Lexeme → List Lexeme
  finish : Nat
  /-- The cursors at which reading the text can arrive. -/
  Fits : Cursor → Prop
  /-- The lexemes stand right behind a lexeme of the text. -/
  Behind : Lexeme → List Lexeme → Prop
  length_lt {ls ls' : List Lexeme} : ls.length < ls'.length → (rest ls).length < (rest ls').length
  token (l : Lexeme) : (lexeme l).token = l.token
  start (l : Lexeme) : (lexeme l).start = place l.start
  fits_suffix {c d : Cursor} : Fits c → d.rest <:+ c.rest → c.level ≤ d.level → Fits d
  skip_cons {c : Cursor} {l : Lexeme} {r : List Lexeme} : Fits c → c.skip.rest = l :: r →
    (Cursor.mk (rest c.rest) c.depth finish).skip.rest = lexeme l :: rest r
  skip_nil {c : Cursor} : Fits c → c.Sealed → c.skip.rest = [] →
    ∀ l ∈ (Cursor.mk (rest c.rest) c.depth finish).skip.rest.head?, l.token = .newline
  behind {c : Cursor} {p : Parsed c Lexeme} : Fits c → c.pop? = some p → p.value.token ≠ .newline →
    Behind p.value p.next.rest
  stop {l : Lexeme} {ls : List Lexeme} : Behind l ls → (lexeme l).stop = place l.stop
  touching_rest {l : Lexeme} {ls : List Lexeme} : Behind l ls →
    touching (place l.stop) (rest ls) = (touching l.stop ls).map fun x => (lexeme x.1, rest x.2)
  behind_touching {l l' : Lexeme} {ls r : List Lexeme} : Behind l ls →
    touching l.stop ls = some (l', r) → Behind l' r

namespace Relocation

variable (T : Relocation) {c : Cursor} {β γ : Type}

/-- The place `c` in the other text. -/
def cursor (c : Cursor) : Cursor := ⟨T.rest c.rest, c.depth, T.finish⟩

/-- What was read in the other text. -/
def parsed (f : β → γ) (p : Parsed c β) : Parsed (T.cursor c) γ :=
  ⟨f p.value, T.cursor p.next, T.length_lt p.later⟩

end Relocation

namespace Cursor

variable {c d : Cursor} {i j : Int}

theorem Passes.sealed (h : c.Passes i j d) : c.Sealed := by
  obtain ⟨used, hrest, ⟨l, hl, hline⟩, -⟩ := h.passed
  exact .inr ⟨l, hrest ▸ List.mem_append_left _ hl, hline⟩

theorem pop?_of_skip {l : Lexeme} {r : List Lexeme} (h : c.skip.rest = l :: r) :
    ∃ p, c.pop? = some p ∧ p.value = l ∧ p.next = { c with rest := r } := by
  unfold pop?
  split
  · rename_i hnil
    cases hnil.symm.trans h
  · rename_i hcons
    cases hcons.symm.trans h
    exact ⟨_, rfl, rfl, rfl⟩

theorem skip_of_pop? {p : Parsed c Lexeme} (h : c.pop? = some p) :
    c.skip.rest = p.value :: p.next.rest ∧ p.next.depth = c.depth := by
  unfold pop? at h
  split at h
  · cases h
  · rename_i hcons
    cases h
    exact ⟨hcons, rfl⟩

theorem skip_of_pop?_none (h : c.pop? = none) : c.skip.rest = [] := by
  cases hrest : c.skip.rest with
  | nil => rfl
  | cons l r =>
    obtain ⟨_, hsome, -⟩ := pop?_of_skip hrest
    cases h.symm.trans hsome

/-- Where a lexeme is found, the cursor is sealed. -/
theorem sealed_of_pop? {p : Parsed c Lexeme} (h : c.pop? = some p) : c.Sealed := by
  obtain ⟨hskip, -⟩ := skip_of_pop? h
  unfold skip at hskip
  split at hskip
  · dsimp only at hskip
    have hmem : p.value ∈ c.rest.dropWhile (·.token == .newline) := hskip ▸ List.mem_cons_self
    refine .inr ⟨p.value, (List.dropWhile_sublist _).mem hmem, fun hline => ?_⟩
    have hhead := List.head?_dropWhile_not (·.token == .newline) c.rest
    simp [hskip, hline] at hhead
  · exact .inl (by omega)

/-- Where a lexeme is looked for in vain, the text ends, outside of brackets. -/
theorem Sealed.skip_nil (h : c.Sealed) (hskip : c.skip.rest = []) : c.depth = 0 ∧ c.rest = [] := by
  unfold skip at hskip
  split at hskip
  · rename_i hdepth
    have hlines := List.dropWhile_eq_nil_iff.1 hskip
    rcases h with h | ⟨l, hl, hline⟩
    · omega
    · exact absurd (beq_iff_eq.1 (hlines l hl)) hline
  · exact ⟨by omega, hskip⟩

/-- Something was read from here on. -/
theorem Passes.pop? (h : c.Passes i j d) : ∃ p, c.pop? = some p := by
  cases hpop : c.pop? with
  | some p => exact ⟨p, rfl⟩
  | none =>
    obtain ⟨used, hrest, ⟨l, hl, -⟩, -⟩ := h.passed
    have hnil := (h.sealed.skip_nil (skip_of_pop?_none hpop)).2
    rw [hrest, List.append_eq_nil_iff] at hnil
    cases hnil.1 ▸ hl

theorem pop?_of_name {n : Parsed c String} (h : c.name = .ok n) :
    ∃ p, c.pop? = some p ∧ n.next = p.next := by
  unfold name at h
  split at h
  · rename_i p hp
    split at h
    · split at h
      · cases h
      · cases h
        exact ⟨p, hp, rfl⟩
    · cases h
  · cases h

/-- Behind a name with which something starts that was read. -/
theorem Passes.sealed_name (h : c.Passes 0 j d) (hd : d.Sealed) {n : Parsed c String}
    (hn : c.name = .ok n) : n.next.Sealed := by
  obtain ⟨p, hp, hnext⟩ := pop?_of_name hn
  obtain ⟨lines, hrest, hlines, hdepth, -⟩ := pop?_some hp
  obtain ⟨used, hused, ⟨solid, hsolid, hsolidLine⟩, -⟩ := h.passed
  rw [hnext]
  refine hd.imp (fun hzero => hdepth.trans (h.depth_eq.symm.trans hzero)) ?_
  rintro ⟨l, hl, hline⟩
  refine ⟨l, ?_, hline⟩
  rcases List.append_eq_append_iff.1 (hrest.symm.trans hused) with ⟨more, hu, hcons⟩ | ⟨more, hu, -⟩
  · cases more with
    | nil =>
      rw [List.append_nil] at hu
      exact absurd (hlines solid (hu ▸ hsolid)) hsolidLine
    | cons x more =>
      obtain ⟨-, hnextRest⟩ := List.cons.inj hcons
      rw [hnextRest]
      exact List.mem_append_right _ hl
  · refine absurd (hlines solid ?_) hsolidLine
    rw [hu]
    exact List.mem_append_left _ hsolid

end Cursor

theorem touching_eq_some {n : Nat} {ls r : List Lexeme} {l : Lexeme} :
    touching n ls = some (l, r) ↔ ls = l :: r ∧ l.start = n ∧ l.token ≠ .newline := by
  cases ls with
  | nil => simp [touching]
  | cons l' r' =>
    rw [touching, Option.ite_none_right_eq_some, Option.some_inj, Prod.mk.injEq, List.cons.injEq]
    constructor
    · rintro ⟨h, rfl, rfl⟩
      exact ⟨⟨rfl, rfl⟩, h⟩
    · rintro ⟨⟨rfl, rfl⟩, h⟩
      exact ⟨h, rfl, rfl⟩

theorem Cursor.touches_eq (c : Cursor) (n : Nat) (s : Char) :
    c.touches n s = (touching n c.rest).any (·.1.token == .symbol s) := by
  unfold touches
  cases c.rest with
  | nil => rfl
  | cons l r =>
    by_cases hline : l.token = .newline
    · simp [touching, hline]
    · by_cases hstart : l.start = n <;> simp [touching, hline, hstart]

namespace Relocation

variable {T : Relocation} {c : Cursor} {β γ : Type}

/-- Behind what is read a cursor fits if nothing is closed that was open. -/
theorem fits {d : Cursor} {i j : Int} (hc : T.Fits c) (h : c.Passes i j d) (hij : j ≤ i) :
    T.Fits d := by
  have hlevel := h.level
  exact T.fits_suffix hc h.suffix (by omega)

/-- The next lexeme. -/
theorem pop?_some (hc : T.Fits c) {p : Parsed c Lexeme} (h : c.pop? = some p) :
    (T.cursor c).pop? = some (T.parsed T.lexeme p) := by
  obtain ⟨hrest, hdepth⟩ := Cursor.skip_of_pop? h
  obtain ⟨q, hq, hvalue, hnext⟩ := Cursor.pop?_of_skip (c := T.cursor c) (T.skip_cons hc hrest)
  rw [hq]
  refine congrArg some (Parsed.ext hvalue (hnext.trans ?_))
  exact congrArg (Cursor.mk (T.rest p.next.rest) · T.finish) hdepth.symm

/-- Where there is none, a new line begins, or nothing follows. -/
theorem pop?_none (hc : T.Fits c) (hs : c.Sealed) (hpop : c.pop? = none) :
    ∀ p ∈ (T.cursor c).pop?, p.value.token = .newline := by
  intro p hp
  refine T.skip_nil hc hs (Cursor.skip_of_pop?_none hpop) p.value ?_
  show p.value ∈ (T.cursor c).skip.rest.head?
  rw [(Cursor.skip_of_pop? hp).1]
  rfl

/-! ## Looking for lexemes -/

/-- A search finds the same in the other text. -/
structure Keeps (look : (c : Cursor) → Option (Parsed c β)) : Prop where
  sealed {c : Cursor} {p : Parsed c β} (h : look c = some p) : c.Sealed
  found (T : Relocation) {c : Cursor} (hc : T.Fits c) {p : Parsed c β} (h : look c = some p) :
    look (T.cursor c) = some (T.parsed id p)
  missed (T : Relocation) {c : Cursor} (hc : T.Fits c) (hs : c.Sealed) (h : look c = none) :
    look (T.cursor c) = none

theorem keeps_token? {t : Token} (ht : t ≠ .newline) : Keeps fun c => c.token? t where
  sealed h := by
    obtain ⟨q, hq, -⟩ := Cursor.pop?_of_token? h
    exact Cursor.sealed_of_pop? hq
  found T c hc p h := by
    unfold Cursor.token? at h ⊢
    split at h
    · rename_i q hq
      rw [T.pop?_some hc hq]
      dsimp only
      split at h
      · rename_i htoken
        cases h
        exact if_pos ((T.token q.value).trans htoken)
      · cases h
    · cases h
  missed T c hc hs h := by
    unfold Cursor.token? at h ⊢
    split at h
    · rename_i q hq
      rw [T.pop?_some hc hq]
      dsimp only
      split at h
      · cases h
      · rename_i htoken
        exact if_neg fun htoken' => htoken ((T.token q.value).symm.trans htoken')
    · rename_i hnone
      split
      · rename_i q hq
        have hline := T.pop?_none hc hs hnone q hq
        exact if_neg fun htoken => ht (htoken.symm.trans hline)
      · rfl

theorem keeps_symbol? (s : Char) : Keeps fun c => c.symbol? s := keeps_token? nofun

theorem keeps_keyword? (w : String) : Keeps fun c => c.keyword? w := keeps_token? nofun

/-- What touches a lexeme in the text touches it in the other one. -/
theorem touches_cursor {l : Lexeme} (h : T.Behind l c.rest) (s : Char) :
    (T.cursor c).touches (T.lexeme l).stop s = c.touches l.stop s := by
  rw [Cursor.touches_eq, Cursor.touches_eq, T.stop h]
  show (touching (T.place l.stop) (T.rest c.rest)).any _ = _
  rw [T.touching_rest h, Option.any_map]
  exact congrArg (Option.any · _) (funext fun x => congrArg (· == Token.symbol s) (T.token x.1))

/-- What holds of a symbol and of the symbol that touches it holds of them in the other text. -/
theorem symbol_touches_iff (hc : T.Fits c) {p : Parsed c Lexeme} (hp : c.pop? = some p)
    (s s' : Char) {P : Bool → Prop} :
    let q := T.parsed T.lexeme p
    (q.value.token = .symbol s ∧ P (q.next.touches q.value.stop s')) ↔
      (p.value.token = .symbol s ∧ P (p.next.touches p.value.stop s')) := by
  intro q
  have htoken : q.value.token = p.value.token := T.token p.value
  rw [htoken]
  refine and_congr_right fun hsymbol => iff_of_eq (congrArg P ?_)
  exact T.touches_cursor (T.behind hc hp (by simp [hsymbol])) s'

/-- The counterpart of a symbol that touches the one before it stands right behind that one. -/
theorem rest_of_touches (hc : T.Fits c) {p : Parsed c Lexeme} (hp : c.pop? = some p) {s s' : Char}
    (hsymbol : p.value.token = .symbol s) (htouches : p.next.touches p.value.stop s' = true)
    {l : Lexeme} {r : List Lexeme} (hrest : p.next.rest = l :: r) :
    (T.parsed T.lexeme p).next.rest = T.lexeme l :: T.rest r := by
  rw [Cursor.touches, hrest] at htouches
  simp only [List.head?_cons, Option.any_some, Bool.and_eq_true, beq_iff_eq] at htouches
  have htouching : touching p.value.stop p.next.rest = some (l, r) :=
    touching_eq_some.2 ⟨hrest, htouches.1, by simp [htouches.2]⟩
  have hrelocated := T.touching_rest (T.behind hc hp (by simp [hsymbol]))
  rw [htouching] at hrelocated
  exact (touching_eq_some.1 hrelocated).1

theorem keeps_plainSymbol? (s : Char) : Keeps fun c => c.plainSymbol? s where
  sealed h := by
    obtain ⟨q, hq, -⟩ := Cursor.pop?_of_plainSymbol? h
    exact Cursor.sealed_of_pop? hq
  found T c hc p h := by
    unfold Cursor.plainSymbol? at h ⊢
    split at h
    · rename_i q hq
      rw [T.pop?_some hc hq]
      split at h
      · rename_i hplain
        cases h
        exact if_pos ((T.symbol_touches_iff hc hq s '=' (P := fun b => ¬ b = true)).2 hplain)
      · cases h
    · cases h
  missed T c hc hs h := by
    unfold Cursor.plainSymbol? at h ⊢
    split at h
    · rename_i q hq
      rw [T.pop?_some hc hq]
      split at h
      · cases h
      · rename_i hplain
        exact if_neg (mt (T.symbol_touches_iff hc hq s '=' (P := fun b => ¬ b = true)).1 hplain)
    · rename_i hnone
      split
      · rename_i q hq
        have hline := T.pop?_none hc hs hnone q hq
        refine if_neg fun hplain => ?_
        cases hplain.1.symm.trans hline
      · rfl

theorem keeps_symbolEquals? (s : Char) : Keeps fun c => c.symbolEquals? s where
  sealed h := by
    obtain ⟨q, l, hq, -⟩ := Cursor.pop?_of_symbolEquals? h
    exact Cursor.sealed_of_pop? hq
  found T c hc p h := by
    unfold Cursor.symbolEquals? at h ⊢
    split at h
    · rename_i q hq
      rw [T.pop?_some hc hq]
      split at h
      · rename_i hequals
        dsimp only
        rw [if_pos ((T.symbol_touches_iff hc hq s '=' (P := fun b => b = true)).2 hequals)]
        split at h
        · cases h
        · rename_i l r hrest
          cases h
          have hplaced := T.rest_of_touches hc hq hequals.1 hequals.2 hrest
          split
          · rename_i hnil
            cases hnil.symm.trans hplaced
          · rename_i hcons
            cases hcons.symm.trans hplaced
            rfl
      · cases h
    · cases h
  missed T c hc hs h := by
    unfold Cursor.symbolEquals? at h ⊢
    split at h
    · rename_i q hq
      rw [T.pop?_some hc hq]
      split at h
      · rename_i hequals
        have htouches := hequals.2
        split at h
        · -- nothing touches the symbol
          rename_i hnil
          rw [Cursor.touches, hnil] at htouches
          cases htouches
        · cases h
      · rename_i hequals
        exact if_neg (mt (T.symbol_touches_iff hc hq s '=' (P := fun b => b = true)).1 hequals)
    · rename_i hnone
      split
      · rename_i q hq
        have hline := T.pop?_none hc hs hnone q hq
        refine if_neg fun hequals => ?_
        cases hequals.1.symm.trans hline
      · rfl

/-- A search for one thing and then for another. -/
theorem Keeps.orElse {look look' : (c : Cursor) → Option (Parsed c β)} (h : Keeps look)
    (h' : Keeps look') : Keeps fun c => look c <|> look' c where
  sealed hp := by
    rw [Option.orElse_eq_orElse, Option.orElse_eq_or, Option.or_eq_some_iff] at hp
    exact hp.elim h.sealed fun hp => h'.sealed hp.2
  found T c hc p hp := by
    rw [Option.orElse_eq_orElse, Option.orElse_eq_or, Option.or_eq_some_iff] at hp ⊢
    exact hp.imp (h.found T hc) fun ⟨hnone, hp⟩ =>
      ⟨h.missed T hc (h'.sealed hp) hnone, h'.found T hc hp⟩
  missed T c hc hs hp := by
    rw [Option.orElse_eq_orElse, Option.orElse_eq_or, Option.or_eq_none_iff] at hp ⊢
    exact ⟨h.missed T hc hs hp.1, h'.missed T hc hs hp.2⟩

/-- A search for something that means something. -/
theorem Keeps.map {look : (c : Cursor) → Option (Parsed c β)} (h : Keeps look) (g : β → γ) :
    Keeps fun c => (look c).map fun p => p.map g where
  sealed hp := by
    obtain ⟨p, hlook, -⟩ := Option.map_eq_some_iff.1 hp
    exact h.sealed hlook
  found T c hc p hp := by
    obtain ⟨p, hlook, rfl⟩ := Option.map_eq_some_iff.1 hp
    rw [h.found T hc hlook]
    rfl
  missed T c hc hs hp := by
    rw [Option.map_eq_none_iff] at hp ⊢
    exact h.missed T hc hs hp

theorem keeps_op? (t : Tier) : Keeps t.op? := by
  have as {look : (c : Cursor) → Option (Parsed c Unit)} (h : Keeps look) (op : BinaryOp) :
      Keeps fun c => (look c).map fun p => p.map fun _ => op := h.map _
  cases t with
  | or => exact as (keeps_keyword? _) _
  | and => exact as (keeps_keyword? _) _
  | comparison =>
    exact (as (keeps_symbolEquals? _) _).orElse ((as (keeps_symbolEquals? _) _).orElse
      ((as (keeps_symbolEquals? _) _).orElse ((as (keeps_symbolEquals? _) _).orElse
        ((as (keeps_symbol? _) _).orElse (as (keeps_symbol? _) _)))))
  | sum => exact (as (keeps_plainSymbol? _) _).orElse (as (keeps_plainSymbol? _) _)
  | product =>
    exact (as (keeps_plainSymbol? _) _).orElse ((as (keeps_plainSymbol? _) _).orElse
      (as (keeps_plainSymbol? _) _))

/-! ## Reading names -/

section

variable (T : Relocation) (hc : T.Fits c)
include hc

theorem expect_cursor {s : Char} {p : Parsed c Unit} (h : c.expect s = .ok p) :
    (T.cursor c).expect s = .ok (T.parsed id p) := by
  unfold Cursor.expect at h ⊢
  split at h
  · rename_i q hq
    cases h
    rw [(keeps_symbol? s).found T hc hq]
  · cases h

theorem expectClosing_cursor {s : Char} {p : Parsed c Unit} (h : c.expectClosing s = .ok p) :
    (T.cursor c).expectClosing s = .ok (T.parsed id p) := by
  unfold Cursor.expectClosing at h ⊢
  cases hq : c.expect s with
  | error e => rw [hq] at h; cases h
  | ok q =>
    rw [hq] at h
    cases h
    rw [T.expect_cursor hc hq]
    rfl

theorem name_cursor {p : Parsed c String} (h : c.name = .ok p) :
    (T.cursor c).name = .ok (T.parsed id p) := by
  unfold Cursor.name at h ⊢
  split at h
  · rename_i q hq
    rw [T.pop?_some hc hq]
    dsimp only
    split at h
    · rename_i w hw
      have hrelocated : (T.parsed T.lexeme q).value.token = .word w := (T.token q.value).trans hw
      split at h
      · cases h
      · rename_i hword
        cases h
        rw [hrelocated]
        exact if_neg hword
    · cases h
  · cases h

/-- Where there is no name, there is none in the other text. -/
theorem name_cursor_error {e : SyntaxError} (hs : c.Sealed) (h : c.name = .error e) :
    ∃ e', (T.cursor c).name = .error e' := by
  unfold Cursor.name at h ⊢
  split at h
  · rename_i q hq
    rw [T.pop?_some hc hq]
    dsimp only
    split at h
    · rename_i w hw
      have hrelocated : (T.parsed T.lexeme q).value.token = .word w := (T.token q.value).trans hw
      split at h
      · rename_i hword
        rw [hrelocated]
        exact ⟨_, if_pos hword⟩
      · cases h
    · rename_i hnone
      split
      · rename_i w hw
        exact absurd ((T.token q.value).symm.trans hw) (hnone w)
      · exact ⟨_, rfl⟩
  · rename_i hnone
    split
    · rename_i q hq
      rw [T.pop?_none hc hs hnone q hq]
      exact ⟨_, rfl⟩
    · exact ⟨_, rfl⟩

/-- The position of a cursor is that of its lexeme. -/
theorem position_cursor {p : Parsed c Lexeme} (h : c.pop? = some p) :
    (T.cursor c).position = T.place c.position := by
  rw [← Cursor.start_pop? h, ← Cursor.start_pop? (T.pop?_some hc h)]
  exact T.start p.value

/-- A name and an equals sign that are there are there in the other text. -/
theorem argName?_cursor {p : Parsed c String} (h : c.argName? = some p) :
    (T.cursor c).argName? = some (T.parsed id p) := by
  unfold Cursor.argName? at h ⊢
  split at h
  · rename_i n hn
    obtain ⟨q, hq, rfl⟩ := Option.map_eq_some_iff.1 h
    have hfits := T.fits hc (c.turns_name n hn) (by decide)
    have hequals := (keeps_plainSymbol? '=').found T hfits hq
    rw [T.name_cursor hc hn]
    dsimp only
    rw [show (T.parsed id n).next.plainSymbol? '=' = _ from hequals]
    rfl
  · cases h

theorem argName?_cursor_none (hs : c.Sealed) (hnext : ∀ n, c.name = .ok n → n.next.Sealed)
    (h : c.argName? = none) : (T.cursor c).argName? = none := by
  unfold Cursor.argName? at h ⊢
  split at h
  · rename_i n hn
    rw [Option.map_eq_none_iff] at h
    have hfits := T.fits hc (c.turns_name n hn) (by decide)
    have hnone := (keeps_plainSymbol? '=').missed T hfits (hnext n hn) h
    rw [T.name_cursor hc hn]
    dsimp only
    rw [show (T.parsed id n).next.plainSymbol? '=' = none from hnone]
    rfl
  · rename_i e he
    obtain ⟨e', he'⟩ := T.name_cursor_error hc hs he
    rw [he']

end

end Relocation

/-! ## Dotted names -/

/-- The member `.m` that touches a name which stops at the byte `stop`: its word, the lexeme of the
word, and the lexemes behind it. -/
def member? (stop : Nat) (ls : List Lexeme) : Option (String × Lexeme × List Lexeme) := do
  let (point, r) ← touching stop ls
  let (l, r') ← touching point.stop r
  match point.token, l.token with
  | .symbol '.', .word w => some (w, l, r')
  | _, _ => none

theorem touching_of_member? {stop : Nat} {ls r : List Lexeme} {w : String} {l : Lexeme}
    (h : member? stop ls = some (w, l, r)) :
    ∃ point r', touching stop ls = some (point, r') ∧ touching point.stop r' = some (l, r) ∧
      point.token = .symbol '.' ∧ l.token = .word w := by
  obtain ⟨⟨point, r'⟩, hpoint, h'⟩ := Option.bind_eq_some_iff.1 h
  obtain ⟨⟨l', r''⟩, hword, hmember⟩ := Option.bind_eq_some_iff.1 h'
  dsimp only at hmember
  split at hmember
  · rename_i hsymbol hw
    cases hmember
    exact ⟨point, r', hpoint, hword, hsymbol, hw⟩
  · cases hmember

theorem member?_some {stop : Nat} {ls r : List Lexeme} {w : String} {l : Lexeme}
    (h : member? stop ls = some (w, l, r)) (name : String) :
    r.length < ls.length ∧ members name stop ls = members (name ++ "." ++ w) l.stop r := by
  obtain ⟨point, r', hpoint, hword, hsymbol, hw⟩ := touching_of_member? h
  obtain ⟨rfl, rfl, -⟩ := touching_eq_some.1 hpoint
  obtain ⟨rfl, hstart, -⟩ := touching_eq_some.1 hword
  obtain ⟨_, _, _, _⟩ := point
  obtain ⟨_, _, _, _⟩ := l
  subst hsymbol hw hstart
  refine ⟨by simp only [List.length_cons]; omega, ?_⟩
  rw [members, if_pos ⟨rfl, rfl⟩]

theorem member?_none {stop : Nat} {ls : List Lexeme} (h : member? stop ls = none) (name : String) :
    members name stop ls = (name, stop, ls) := by
  fun_cases members name stop ls with
  | case1 f₁ start₁ stop₁ w f₂ start₂ stop₂ rest htouch =>
    simp [member?, touching, htouch] at h
  | case2 => rfl
  | case3 => rfl

namespace Relocation

variable {T : Relocation} {c : Cursor}

theorem member?_rest {l : Lexeme} {ls : List Lexeme} (h : T.Behind l ls) :
    member? (T.place l.stop) (T.rest ls) =
      (member? l.stop ls).map fun x => (x.1, T.lexeme x.2.1, T.rest x.2.2) := by
  unfold member?
  rw [T.touching_rest h]
  cases hpoint : touching l.stop ls with
  | none => rfl
  | some x =>
    obtain ⟨point, r⟩ := x
    have hbehind := T.behind_touching h hpoint
    show (touching (T.lexeme point).stop (T.rest r)).bind _ = ((touching point.stop r).bind _).map _
    rw [T.stop hbehind, T.touching_rest hbehind]
    cases touching point.stop r with
    | none => rfl
    | some y =>
      dsimp only [Option.map, Option.bind]
      rw [T.token, T.token]
      split <;> rfl

theorem behind_member? {l l' : Lexeme} {ls r : List Lexeme} {w : String} (h : T.Behind l ls)
    (hmember : member? l.stop ls = some (w, l', r)) : T.Behind l' r := by
  obtain ⟨point, r', hpoint, hword, -⟩ := touching_of_member? hmember
  exact T.behind_touching (T.behind_touching h hpoint) hword

/-- The members of a name, and what stands behind the last of them. -/
theorem members_rest (name : String) {l : Lexeme} {ls : List Lexeme} (h : T.Behind l ls) :
    members name (T.place l.stop) (T.rest ls) =
      ((members name l.stop ls).1, T.place (members name l.stop ls).2.1,
        T.rest (members name l.stop ls).2.2) ∧
      ∃ l', (members name l.stop ls).2.1 = l'.stop ∧ T.Behind l' (members name l.stop ls).2.2 := by
  have hrest := T.member?_rest h
  cases hmember : member? l.stop ls with
  | none =>
    rw [hmember] at hrest
    rw [member?_none hmember, member?_none hrest]
    exact ⟨rfl, l, rfl, h⟩
  | some x =>
    obtain ⟨w, l', r⟩ := x
    have hbehind := T.behind_member? h hmember
    obtain ⟨hlt, hmembers⟩ := member?_some hmember name
    rw [hmember] at hrest
    rw [hmembers, (member?_some hrest name).2, T.stop hbehind]
    exact members_rest _ hbehind
termination_by ls.length

/-- A dotted name; what it touches, it touches in the other text. -/
theorem dottedName_cursor (hc : T.Fits c) {p : Parsed c (String × Nat)}
    (h : c.dottedName = .ok p) :
    (T.cursor c).dottedName = .ok (T.parsed (fun n => (n.1, T.place n.2)) p) ∧
      ∀ s, (T.cursor p.next).touches (T.place p.value.2) s = p.next.touches p.value.2 s := by
  unfold Cursor.dottedName at h ⊢
  split at h
  · rename_i q hq
    rw [T.pop?_some hc hq]
    dsimp only
    split at h
    · rename_i w hw
      have hrelocated : (T.parsed T.lexeme q).value.token = .word w := (T.token q.value).trans hw
      have hbehind := T.behind hc hq (by simp [hw])
      split at h
      · cases h
      · rename_i hword
        cases h
        obtain ⟨hmembers, l, hl, hlast⟩ := T.members_rest w hbehind
        rw [hrelocated]
        dsimp only
        rw [if_neg hword]
        constructor
        · have hstop : (T.parsed T.lexeme q).value.stop = T.place q.value.stop := T.stop hbehind
          rw [← hstop] at hmembers
          refine congrArg Except.ok (Parsed.ext ?_ ?_)
          · exact congrArg (fun m => (m.1, m.2.1)) hmembers
          · exact congrArg (fun m => (⟨m.2.2, q.next.depth, T.finish⟩ : Cursor)) hmembers
        · intro s
          rw [hl, ← T.stop hlast]
          exact T.touches_cursor hlast s
    · cases h
  · cases h

end Relocation

end BarScript
