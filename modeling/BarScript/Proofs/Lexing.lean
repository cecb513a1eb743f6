import BarScript.Script.Printer
import BarScript.Script.Token

/-!
# The lexemes of printed text

A word, a number, a quoted text or a symbol at the front of a text is one lexeme, if what follows
cannot be part of it (`lexemes_word`, `lexemes_number`, `lexemes_text`, `lexemes_mark`). So the
lexemes of a printed expression can be read off from the front.
-/

namespace BarScript

open Text (byteSize isBlank isLetter isNumeral)

namespace Token

/-! ## Characters -/

/-- The characters that are white space. -/
def blanks : List Nat :=
  [0x9, 0xA, 0xB, 0xC, 0xD, 0x20, 0x85, 0xA0, 0x1680, 0x2000, 0x2001, 0x2002, 0x2003, 0x2004,
    0x2005, 0x2006, 0x2007, 0x2008, 0x2009, 0x200A, 0x2028, 0x2029, 0x202F, 0x205F, 0x3000]

theorem mem_blanks {c : Char} (h : isBlank c = true) : c.toNat ∈ blanks := by
  simp only [isBlank, Bool.or_eq_true, Bool.and_eq_true, decide_eq_true_eq, beq_iff_eq] at h
  simp only [blanks, List.mem_cons, List.not_mem_nil, or_false]
  omega

theorem of_isBlank {p : Char → Prop} (h : ∀ n ∈ blanks, p (Char.ofNat n)) {c : Char}
    (hc : isBlank c = true) : p c :=
  Char.ofNat_toNat c ▸ h _ (mem_blanks hc)

theorem continuesWord_of_isBlank {c : Char} (h : isBlank c = true) : continuesWord c = false :=
  of_isBlank (p := fun c => continuesWord c = false) (by decide +kernel) h

theorem isBlank_of_startsWord {c : Char} (h : startsWord c = true) : isBlank c = false := by
  rw [Bool.eq_false_iff]
  intro hc
  have hno := of_isBlank (p := fun c => startsWord c = false) (by decide +kernel) hc
  rw [h] at hno
  cases hno

theorem of_isDigit {p : Char → Prop} (h : ∀ n ∈ List.range' 48 10, p (Char.ofNat n)) {c : Char}
    (hc : c.isDigit = true) : p c := by
  have hmem : c.toNat ∈ List.range' 48 10 := by
    rw [Char.isDigit, Bool.and_eq_true, decide_eq_true_eq, decide_eq_true_eq] at hc
    rw [List.mem_range'_1]
    exact ⟨hc.1, Nat.lt_succ_of_le hc.2⟩
  exact Char.ofNat_toNat c ▸ h _ hmem

theorem startsWord_of_isDigit {c : Char} (h : c.isDigit = true) : startsWord c = false :=
  of_isDigit (p := fun c => startsWord c = false) (by decide) h

theorem isBlank_of_isDigit {c : Char} (h : c.isDigit = true) : isBlank c = false :=
  of_isDigit (p := fun c => isBlank c = false) (by decide) h

theorem isDigit_of_startsWord {c : Char} (h : startsWord c = true) : c.isDigit = false := by
  rw [Bool.eq_false_iff]
  intro hc
  rw [startsWord_of_isDigit hc] at h
  cases h

/-- What holds of each character of a list, one by one. -/
theorem forall_mem_of_all {p : Char → Prop} [DecidablePred p] {cs : List Char}
    (h : cs.all (fun c => decide (p c)) = true) : ∀ c ∈ cs, p c :=
  fun c hc => of_decide_eq_true (List.all_eq_true.1 h c hc)

/-! ## Lexemes -/

theorem lexemes_of_munch {c : Char} {cs : List Char} {t : Token} {n : Nat}
    (h : munch c cs = (some t, n)) (s : Nat) :
    lexemes s (c :: cs) = ⟨t, c, s, s + byteSize (c :: cs.take n)⟩ ::
      lexemes (s + byteSize (c :: cs.take n)) (cs.drop n) := by
  rw [lexemes, h]

theorem lexemes_blank (s : Nat) (cs : List Char) : lexemes s (' ' :: cs) = lexemes (s + 1) cs := by
  rw [lexemes]
  rfl

/-- No lexeme starts in front of the text. -/
theorem le_start {s : Nat} {cs : List Char} {l : Lexeme} (h : l ∈ lexemes s cs) : s ≤ l.start := by
  fun_induction lexemes s cs with
  | case1 => cases h
  | case2 s c cs token n hmunch stop t ih =>
    rcases List.mem_cons.1 h with rfl | h
    · exact Nat.le_refl _
    · exact Nat.le_trans (Nat.le_add_right _ _) (ih h)
  | case3 s c cs token n hmunch stop ih => exact Nat.le_trans (Nat.le_add_right _ _) (ih h)

/-- A symbol of one byte that is a token whatever follows. -/
def isMark (c : Char) : Bool :=
  !isBlank c && !startsWord c && !c.isDigit && c ∉ ['\n', '/', '.', '"', '\''] && c.utf8Size == 1

theorem lexemes_mark {c : Char} (hc : isMark c = true) (s : Nat) (cs : List Char) :
    lexemes s (c :: cs) = ⟨.symbol c, c, s, s + 1⟩ :: lexemes (s + 1) cs := by
  simp only [isMark, Bool.and_eq_true, Bool.not_eq_true', decide_eq_true_eq, beq_iff_eq,
    List.mem_cons, List.not_mem_nil, or_false, not_or] at hc
  obtain ⟨⟨⟨⟨hblank, hword⟩, hdigit⟩, hline, hslash, hpoint, hquote, hquote'⟩, hsize⟩ := hc
  have hmunch : munch c cs = (some (.symbol c), 0) := by
    simp [munch, hline, hblank, hslash, hword, hdigit, hpoint, hquote, hquote']
  rw [lexemes_of_munch hmunch]
  simp [byteSize, hsize]

/-- A slash that starts no comment. -/
theorem lexemes_slash (s : Nat) (cs : List Char) :
    lexemes s ('/' :: ' ' :: cs) = ⟨.symbol '/', '/', s, s + 1⟩ :: lexemes (s + 1) (' ' :: cs) :=
  lexemes_of_munch (n := 0) rfl s

/-- A point that starts no number. -/
theorem lexemes_point {c : Char} (hc : startsWord c = true) (s : Nat) (cs : List Char) :
    lexemes s ('.' :: c :: cs) = ⟨.symbol '.', '.', s, s + 1⟩ :: lexemes (s + 1) (c :: cs) := by
  have hdigit := isDigit_of_startsWord hc
  have hnone : Literal.front? ('.' :: c :: cs) = none := by
    simp [Literal.front?, hdigit]
  refine lexemes_of_munch (n := 0) ?_ s
  have hword : startsWord '.' = false := by decide
  have hblank : isBlank '.' = false := by decide
  simp [munch, hnone, hword, hblank]

/-! ## Words -/

/-- A word, as names are made of. -/
def isWord : List Char → Bool
  | [] => false
  | c :: cs => startsWord c && cs.all continuesWord

/-- What may follow a word. -/
def endsWord (cs : List Char) : Prop := ∀ c ∈ cs.head?, continuesWord c = false

theorem takeWhile_append_stop {p : Char → Bool} {cs more : List Char} (hcs : cs.all p = true)
    (hmore : ∀ c ∈ more.head?, p c = false) : (cs ++ more).takeWhile p = cs := by
  rw [List.takeWhile_append_of_pos (List.all_eq_true.1 hcs)]
  cases more with
  | nil => simp
  | cons c more => simp [hmore c rfl]

theorem lexemes_word {w : List Char} (hw : isWord w = true) {more : List Char}
    (hmore : endsWord more) (s : Nat) :
    ∃ first, lexemes s (w ++ more) = ⟨.word (String.ofList w), first, s, s + byteSize w⟩ ::
      lexemes (s + byteSize w) more := by
  cases w with
  | nil => cases hw
  | cons c cs =>
    rw [isWord, Bool.and_eq_true] at hw
    have htake := takeWhile_append_stop hw.2 hmore
    have hblank := isBlank_of_startsWord hw.1
    have hline : c ≠ '\n' := by
      rintro rfl
      cases hblank
    have hslash : c ≠ '/' := by
      rintro rfl
      cases hw.1
    have hmunch : munch c (cs ++ more) = (some (.word (String.ofList (c :: cs))), cs.length) := by
      simp [munch, hline, hblank, hslash, hw.1, htake]
    refine ⟨c, ?_⟩
    rw [List.cons_append, lexemes_of_munch hmunch, List.take_left, List.drop_left]

/-! ## Quoted texts -/

theorem quoted?_escapeChar (c : Char) {cs t : List Char} {n : Nat}
    (h : quoted? '"' cs = some (t, n)) :
    quoted? '"' (escapeChar c ++ cs) = some (c :: t, (escapeChar c).length + n) := by
  unfold escapeChar
  split
  case h_5 hslash hquote hline htab =>
    rw [List.singleton_append, quoted?]
    · rw [if_neg hquote, if_neg hline, h]
      simp [Nat.add_comm]
    · exact fun h => absurd h hslash
    · exact fun _ _ h => absurd h hslash
  all_goals
    rw [List.cons_append, List.cons_append, List.nil_append, quoted?, h]
    simp [escaped, Nat.add_comm]

theorem quoted?_escapes (cs more : List Char) :
    quoted? '"' (cs.flatMap escapeChar ++ '"' :: more) =
      some (cs, (cs.flatMap escapeChar).length + 1) := by
  induction cs with
  | nil => rfl
  | cons c cs ih =>
    rw [List.flatMap_cons, List.append_assoc, quoted?_escapeChar c ih, List.length_append,
      Nat.add_assoc]

theorem lexemes_text (t : String) (more : List Char) (s : Nat) :
    ∃ first, lexemes s (quoteText t ++ more) =
      ⟨.text t, first, s, s + byteSize (quoteText t)⟩ ::
        lexemes (s + byteSize (quoteText t)) more := by
  have hquoted := quoted?_escapes t.toList more
  let n := (t.toList.flatMap escapeChar).length + 1
  have hword : startsWord '"' = false := by decide
  have hmunch : munch '"' (t.toList.flatMap escapeChar ++ '"' :: more) = (some (.text t), n) := by
    have hblank : isBlank '"' = false := by decide
    simp [munch, hblank, hword, hquoted, n]
  have hlength : (t.toList.flatMap escapeChar ++ ['"']).length = n := by simp [n]
  refine ⟨'"', ?_⟩
  rw [quoteText, List.cons_append, List.cons_append, List.append_assoc, List.singleton_append,
    lexemes_of_munch hmunch, List.append_cons, ← hlength, List.take_left, List.drop_left]

/-! ## Numbers -/

/-- What may follow a number. -/
def endsNumber (cs : List Char) : Prop := ∀ c ∈ cs.head?, ¬c.isDigit ∧ c ≠ '.' ∧ c ≠ 'e' ∧ c ≠ 'E'

theorem exponentAhead_of_ends {more : List Char} (h : endsNumber more) :
    Literal.exponentAhead more = (0, 0) := by
  cases more with
  | nil => rfl
  | cons c more =>
    obtain ⟨-, -, he, he'⟩ := h c rfl
    simp [Literal.exponentAhead, he, he']

theorem digitsValue_toDigits (n : Nat) : Literal.digitsValue (Nat.toDigits 10 n) = n :=
  Nat.ofDigitChars_ten_toDigits

theorem digitsValue_zeros (k : Nat) (ds : List Char) :
    Literal.digitsValue (List.replicate k '0' ++ ds) = Literal.digitsValue ds := by
  induction k with
  | zero => rfl
  | succ k ih => exact ih

theorem all_toDigits (n : Nat) : (Nat.toDigits 10 n).all Char.isDigit = true :=
  List.all_eq_true.2 fun _ hc => Nat.isDigit_of_mem_toDigits (by decide) (by decide) hc

/-- A whole number, and what is behind it. -/
theorem front?_whole {ds more : List Char} (hds : ds.all Char.isDigit = true) (hne : ds ≠ [])
    (hmore : ∀ c ∈ more.head?, ¬c.isDigit ∧ c ≠ '.') :
    Literal.front? (ds ++ more) =
      some (⟨false, Literal.digitsValue ds, (Literal.exponentAhead more).1⟩,
        ds.length + (Literal.exponentAhead more).2) := by
  have htake := takeWhile_append_stop hds fun c hc => Bool.eq_false_iff.2 (hmore c hc).1
  have hpoint : more.head? ≠ some '.' := fun h => (hmore '.' h).2 rfl
  simp only [Literal.front?, htake, List.drop_left]
  split
  · exact (hpoint rfl).elim
  · simp [hne]

theorem front?_fraction {ds fs more : List Char} (hds : ds.all Char.isDigit = true)
    (hfs : fs.all Char.isDigit = true) (hne : ds ≠ []) (hmore : endsNumber more) :
    Literal.front? (ds ++ '.' :: (fs ++ more)) =
      some (⟨false, Literal.digitsValue (ds ++ fs), -fs.length⟩, ds.length + 1 + fs.length) := by
  have htake : (ds ++ '.' :: (fs ++ more)).takeWhile Char.isDigit = ds :=
    takeWhile_append_stop hds (by simp)
  have hfraction := takeWhile_append_stop hfs fun c hc => Bool.eq_false_iff.2 (hmore c hc).1
  have hdrop : (ds ++ '.' :: (fs ++ more)).drop (ds.length + fs.length + 1) = more := by
    rw [Nat.add_assoc, ← List.drop_drop, List.drop_left, List.drop_succ_cons, List.drop_left]
  simp [Literal.front?, htake, hfraction, hne, hdrop, exponentAhead_of_ends hmore]
  omega

theorem exponentAhead_digits {ds more : List Char} (hds : ds.all Char.isDigit = true)
    (hne : ds ≠ []) (hmore : ∀ c ∈ more.head?, ¬c.isDigit) :
    Literal.exponentAhead ('e' :: (ds ++ more)) =
      ((Literal.digitsValue ds : Int), 1 + ds.length) := by
  have htake := takeWhile_append_stop hds fun c hc => Bool.eq_false_iff.2 (hmore c hc)
  cases ds with
  | nil => exact (hne rfl).elim
  | cons d ds =>
    have hd : d.isDigit = true := by simp_all
    have hminus : d ≠ '-' := by
      rintro rfl
      exact absurd hd (by decide)
    have hplus : d ≠ '+' := by
      rintro rfl
      exact absurd hd (by decide)
    rw [List.cons_append] at htake ⊢
    simp [Literal.exponentAhead, htake, hminus, hplus]

/-- A literal with places is printed as its digits with a dot among them, not in front of them. -/
theorem print_fraction (m : Nat) {e : Int} (he : e < 0) :
    ∃ ds fs, (⟨false, m, e⟩ : Literal).print = ds ++ '.' :: fs ∧ ds ≠ [] ∧
      ds.all Char.isDigit = true ∧ fs.all Char.isDigit = true ∧
      Literal.digitsValue (ds ++ fs) = m ∧ -(fs.length : Int) = e := by
  let places := (-e).toNat
  let zeros := List.replicate (places + 1 - (Nat.toDigits 10 m).length) '0'
  let ds := zeros ++ Nat.toDigits 10 m
  let k := ds.length - places
  have hlength : places + 1 ≤ ds.length := by
    simp only [ds, zeros, List.length_append, List.length_replicate]
    omega
  have hds : ds.all Char.isDigit = true := by
    simp only [ds, zeros, List.all_append, all_toDigits, Bool.and_true]
    exact List.all_eq_true.2 fun c hc => (List.eq_of_mem_replicate hc) ▸ by decide
  refine ⟨ds.take k, ds.drop k, ?_, ?_, ?_, ?_, ?_, ?_⟩
  · simp [Literal.print, Int.ne_of_lt he, Int.not_lt.2 (Int.le_of_lt he), ds, zeros, k, places]
  · intro h
    have := congrArg List.length h
    rw [List.length_take, List.length_nil] at this
    omega
  · exact List.all_eq_true.2 fun c hc => List.all_eq_true.1 hds c (List.mem_of_mem_take hc)
  · exact List.all_eq_true.2 fun c hc => List.all_eq_true.1 hds c (List.mem_of_mem_drop hc)
  · rw [List.take_append_drop, digitsValue_zeros, digitsValue_toDigits]
  · rw [List.length_drop]
    omega

/-- A printed number is read back, and it begins with a digit. -/
theorem front?_print {l : Literal} (hl : l.negative = false) {more : List Char}
    (hmore : endsNumber more) :
    Literal.front? (l.print ++ more) = some (l, l.print.length) ∧
      ∃ d cs, l.print = d :: cs ∧ d.isDigit = true := by
  obtain ⟨negative, m, e⟩ := l
  obtain rfl : negative = false := hl
  have begins {ds cs : List Char} (hds : ds.all Char.isDigit = true) (hne : ds ≠ []) :
      ∃ d cs', ds ++ cs = d :: cs' ∧ d.isDigit = true := by
    obtain ⟨d, ds, rfl⟩ := List.exists_cons_of_ne_nil hne
    exact ⟨d, ds ++ cs, rfl, by simp_all⟩
  have hdigits := all_toDigits m
  have hnil : Nat.toDigits 10 m ≠ [] := Nat.toDigits_ne_nil
  rcases Int.lt_trichotomy e 0 with he | rfl | he
  · obtain ⟨ds, fs, hprint, hne, hds, hfs, hvalue, hplaces⟩ := print_fraction m he
    refine ⟨?_, hprint ▸ begins hds hne⟩
    rw [hprint, List.append_assoc, List.cons_append, front?_fraction hds hfs hne hmore, hvalue,
      hplaces, List.length_append, List.length_cons, Nat.add_right_comm, Nat.add_assoc]
  · have hprint : (⟨false, m, 0⟩ : Literal).print = Nat.toDigits 10 m ++ [] := by
      simp [Literal.print]
    refine ⟨?_, hprint ▸ begins hdigits hnil⟩
    have hend (c : Char) (hc : c ∈ more.head?) : ¬c.isDigit ∧ c ≠ '.' :=
      ⟨(hmore c hc).1, (hmore c hc).2.1⟩
    rw [hprint, List.append_nil, front?_whole hdigits hnil hend, exponentAhead_of_ends hmore,
      digitsValue_toDigits]
    rfl
  · have hprint : (⟨false, m, e⟩ : Literal).print =
        Nat.toDigits 10 m ++ 'e' :: Nat.toDigits 10 e.toNat := by
      simp [Literal.print, he, Int.ne_of_gt he]
    refine ⟨?_, hprint ▸ begins hdigits hnil⟩
    rw [hprint, List.append_assoc, List.cons_append, front?_whole hdigits hnil (by simp),
      exponentAhead_digits (all_toDigits _) Nat.toDigits_ne_nil fun c hc => (hmore c hc).1,
      digitsValue_toDigits, digitsValue_toDigits, Int.toNat_of_nonneg (Int.le_of_lt he)]
    simp [Nat.add_comm]

theorem lexemes_number {l : Literal} (hl : l.negative = false) {more : List Char}
    (hmore : endsNumber more) (s : Nat) :
    ∃ first, lexemes s (l.print ++ more) = ⟨.number l, first, s, s + byteSize l.print⟩ ::
      lexemes (s + byteSize l.print) more := by
  obtain ⟨hfront, c, cs, hprint, hdigit⟩ := front?_print hl hmore
  rw [hprint] at hfront ⊢
  have hword := startsWord_of_isDigit hdigit
  have hblank := isBlank_of_isDigit hdigit
  have hline : c ≠ '\n' := by
    rintro rfl
    cases hblank
  have hslash : c ≠ '/' := by
    rintro rfl
    exact absurd hdigit (by decide)
  have hmunch : munch c (cs ++ more) = (some (.number l), cs.length) := by
    rw [List.cons_append] at hfront
    simp [munch, hline, hblank, hslash, hword, hdigit, hfront]
  refine ⟨c, ?_⟩
  rw [List.cons_append, lexemes_of_munch hmunch, List.take_left, List.drop_left]

end Token

end BarScript
