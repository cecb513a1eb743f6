import Mathlib
import BarScript.Config.Settings
import BarScript.Proofs.Reading

/-!
# Overrides as values

An override counts as the value that is written for its key (`Settings.build_eq_written`), if it is
written as values are read: with no blanks at its ends, and not blank (`Overrides.Plain`). Numbers
and the switch of the cache always are. A blank ticker is taken from an override, but not from the
file (`Settings.blank_override`).
-/

namespace BarScript

/-! ## Texts without blanks at their ends -/

namespace Text

/-- The text has something in it, and no blanks at its ends. -/
def Plain (s : String) : Prop := trim s = s ∧ s ≠ ""

theorem trimmed_eq (cs : List Char) : trimmed cs = (cs.dropWhile isBlank).rdropWhile isBlank := rfl

theorem trimmed_trimmed (cs : List Char) : trimmed (trimmed cs) = trimmed cs := by
  -- the first character that is left is the one that stopped the blanks in front
  have hfront : (trimmed cs).dropWhile isBlank = trimmed cs := by
    rw [List.dropWhile_eq_self_iff]
    intro hlength
    have hstart : trimmed cs <+: cs.dropWhile isBlank := List.rdropWhile_prefix _ _
    rw [hstart.getElem hlength]
    exact List.dropWhile_get_zero_not _ _ (Nat.lt_of_lt_of_le hlength hstart.length_le)
  rw [trimmed_eq (trimmed cs), hfront, trimmed_eq cs, List.rdropWhile_idempotent]

theorem trim_trim (s : String) : trim (trim s) = trim s := by
  rw [trim, trim, String.toList_ofList, trimmed_trimmed]

theorem Plain.not_blank {s : String} (h : Plain s) : trim s ≠ "" := by
  rw [h.1]
  exact h.2

theorem plain_trim {s : String} (h : trim s ≠ "") : Plain (trim s) := ⟨trim_trim s, h⟩

/-- A text without blanks stays as it is. -/
theorem trim_of_forall {s : String} (h : ∀ c ∈ s.toList, isBlank c = false) : trim s = s := by
  have hdrop {cs : List Char} (hcs : ∀ c ∈ cs, isBlank c = false) :
      cs.dropWhile isBlank = cs := by
    cases cs with
    | nil => rfl
    | cons c cs => exact List.dropWhile_cons_of_neg (by simp [hcs c (.head _)])
  rw [trim, trimmed, hdrop h, hdrop (by simpa using h), List.reverse_reverse, String.ofList_toList]

end Text

/-- A count as it is written. -/
theorem toList_repr (n : Nat) : n.repr.toList = Nat.toDigits 10 n := String.toList_ofList

theorem plain_repr (n : Nat) : Text.Plain n.repr := by
  constructor
  · refine Text.trim_of_forall fun c hc => Token.isBlank_of_isDigit ?_
    rw [toList_repr] at hc
    exact List.all_eq_true.1 (Token.all_toDigits n) c hc
  · intro hnil
    have hdigits := toList_repr n
    rw [hnil] at hdigits
    exact Nat.toDigits_ne_nil hdigits.symm

/-- A count is read as it is written. -/
theorem readCount?_repr {n bound : Nat} (h : n < bound) :
    readCount? bound n.repr = some n := by
  have hall := Token.all_toDigits n
  have hnil : (Nat.toDigits 10 n).isEmpty = false := by simp [Nat.toDigits_ne_nil]
  have hread : readDigits? (Nat.toDigits 10 n) = some n := by
    simp [readDigits?, hnil, hall, Token.digitsValue_toDigits]
  unfold readCount?
  rw [toList_repr]
  split
  · rename_i cs hplus
    rw [hplus, List.all_cons] at hall
    simp at hall
  · simp [hread, h]

/-! ## Values of a file -/

namespace Ini

/-- The value of a key is replaced, if there is a new one. -/
def replace (ini : Ini) (group key : String) : Option String → Ini
  | some value => ini.set group key value
  | none => ini

/-- Two names of keys mean the same key. -/
def SameKey (group key group' key' : String) : Prop :=
  Text.lowercase group = Text.lowercase group' ∧ Text.lowercase key = Text.lowercase key'

instance decidableSameKey (group key group' key' : String) :
    Decidable (SameKey group key group' key') :=
  inferInstanceAs (Decidable (_ ∧ _))

variable (ini : Ini) {group key group' key' : String} (value : Option String)

theorem find?_replace_self :
    (ini.replace group key value).find? group key = (value <|> ini.find? group key) := by
  cases value with
  | none => rfl
  | some v => simp [replace, find?, set]

theorem find?_replace (h : ¬ SameKey group' key' group key) :
    (ini.replace group' key' value).find? group key = ini.find? group key := by
  cases value with
  | none => rfl
  | some v =>
    rw [SameKey] at h
    simp [replace, find?, set, h]

end Ini

/-- The numbers fit into the words that hold them. -/
structure Overrides.Sized (o : Overrides) : Prop where
  bars : ∀ n ∈ o.bars, n < twoTo 64
  precision : ∀ n ∈ o.precision, n < twoTo 32

/-- The texts are written as values are read. -/
structure Overrides.Plain (o : Overrides) : Prop where
  directory : ∀ s ∈ o.directory, Text.Plain s
  ticker : ∀ s ∈ o.ticker, Text.Plain s
  timeframe : ∀ s ∈ o.timeframe, Text.Plain s

/-- The file with the overrides in place of its values. -/
def Overrides.written (o : Overrides) (ini : Ini) : Ini :=
  ini |>.replace "data" "ticker" o.ticker
    |>.replace "data" "timeframe" o.timeframe
    |>.replace "data" "dir" o.directory
    |>.replace "run" "bars" (o.bars.map Nat.repr)
    |>.replace "run" "precision" (o.precision.map Nat.repr)
    |>.replace "run" "use_cache" (if o.noCache then some "false" else Option.none)

/-- What the settings are read from is the same in both files but for the overrides. -/
structure Overrides.Written (o : Overrides) (ini ini' : Ini) : Prop where
  ticker : ini'.find? "data" "ticker" = (o.ticker <|> ini.find? "data" "ticker")
  timeframe : ini'.find? "data" "timeframe" = (o.timeframe <|> ini.find? "data" "timeframe")
  directory : ini'.find? "data" "dir" = (o.directory <|> ini.find? "data" "dir")
  first : ini'.find? "data" "start" = ini.find? "data" "start"
  last : ini'.find? "data" "end" = ini.find? "data" "end"
  limit : ini'.find? "data" "limit" = ini.find? "data" "limit"
  bars : ini'.find? "run" "bars" = (o.bars.map Nat.repr <|> ini.find? "run" "bars")
  precision : ini'.find? "run" "precision" =
    (o.precision.map Nat.repr <|> ini.find? "run" "precision")
  cache : ini'.find? "run" "use_cache" =
    ((if o.noCache then some "false" else Option.none) <|> ini.find? "run" "use_cache")

theorem Overrides.written_spec (o : Overrides) (ini : Ini) : o.Written ini (o.written ini) := by
  constructor <;>
    simp (disch := decide) only [written, Ini.find?_replace, Ini.find?_replace_self]

namespace Settings

variable {ini ini' : Ini} {group key : String}

/-- The value of a key that is found elsewhere. -/
theorem text?_congr (h : ini'.find? group key = ini.find? group key) :
    text? ini' group key = text? ini group key := by
  rw [text?, text?, h]

theorem text?_replaced {value : Option String} (h : ini'.find? group key =
    (value <|> ini.find? group key)) (hvalue : ∀ s ∈ value, Text.Plain s) :
    text? ini' group key = (value <|> text? ini group key) := by
  cases value with
  | none => exact text?_congr h
  | some s =>
    obtain ⟨htrim, hne⟩ := hvalue s rfl
    rw [text?, h]
    simp [htrim, hne]

/-- A text counts the same as an override and as a value exactly if it is written as values are
read. -/
theorem required_set_iff (s : String) :
    required (ini.set group key s) group key none = required ini group key (some s) ↔
      Text.Plain s := by
  have hfind : (ini.set group key s).find? group key = some s := ini.find?_replace_self (some s)
  rw [required, required, text?, hfind]
  by_cases hblank : Text.trim s = ""
  · simpa [Option.filter, hblank] using fun h : Text.Plain s => h.not_blank hblank
  · have hne (htrim : Text.trim s = s) : s ≠ "" := htrim ▸ hblank
    simpa [Option.filter, hblank, Text.Plain] using hne

/-- A value that has to be there. -/
theorem required_replaced {value : Option String} (h : ini'.find? group key =
    (value <|> ini.find? group key)) (hvalue : ∀ s ∈ value, Text.Plain s) :
    required ini' group key none = required ini group key value := by
  rw [required, required, text?_replaced h hvalue]
  rfl

theorem count?_congr (h : ini'.find? group key = ini.find? group key) :
    count? ini' group key = count? ini group key := by
  rw [count?, count?, text?_congr h]

theorem countOr_replaced {value : Option Nat} (h : ini'.find? group key =
    (value.map Nat.repr <|> ini.find? group key)) (hvalue : ∀ n ∈ value, n < twoTo 64) :
    countOr ini' group key none = countOr ini group key value := by
  cases value with
  | none => exact count?_congr h
  | some n =>
    have htext := text?_replaced h (by rintro _ ⟨⟩; exact plain_repr n)
    dsimp only [countOr, count?]
    rw [htext]
    simp [readCount?_repr (hvalue n rfl)]

theorem digitsOr_replaced {value : Option Nat} (h : ini'.find? "run" "precision" =
    (value.map Nat.repr <|> ini.find? "run" "precision")) (hvalue : ∀ n ∈ value, n < twoTo 32) :
    digitsOr ini' none = digitsOr ini value := by
  cases value with
  | none =>
    rw [digitsOr, digitsOr, digits, digits, text?_congr h]
  | some n =>
    have htext := text?_replaced h (by rintro _ ⟨⟩; exact plain_repr n)
    rw [digitsOr, digitsOr, digits, htext]
    simp [readCount?_repr (hvalue n rfl)]

theorem span_congr (hstart : ini'.find? "data" "start" = ini.find? "data" "start")
    (hend : ini'.find? "data" "end" = ini.find? "data" "end") : span ini' = span ini := by
  rw [span, span, instant?, instant?, instant?, instant?, text?_congr hstart, text?_congr hend]

/-- The cache is switched off by an override or in the file. -/
theorem flag_replaced {off : Bool} (h : ini'.find? "run" "use_cache" =
    ((if off then some "false" else none) <|> ini.find? "run" "use_cache")) :
    ini'.flag "run" "use_cache" true = (!off && ini.flag "run" "use_cache" true) := by
  rw [Ini.flag, Ini.flag, h]
  cases off with
  | false => simp
  | true =>
    have hfalse : Ini.truth? "false" = some false := by decide
    simp [hfalse]

/-- **Overrides count as values of the file.** -/
theorem build_eq_written {o : Overrides} (hsized : o.Sized) (hplain : o.Plain) (ini : Ini) :
    build ini o = build (o.written ini) .none := by
  have h := o.written_spec ini
  have hdirectory := text?_replaced h.directory hplain.directory
  unfold build
  dsimp only [Overrides.none]
  rw [required_replaced h.ticker hplain.ticker, required_replaced h.timeframe hplain.timeframe,
    span_congr h.first h.last, countOr_replaced h.bars hsized.bars, count?_congr h.limit,
    digitsOr_replaced h.precision hsized.precision, flag_replaced h.cache, hdirectory]
  simp

/-- A value that is required is not blank. -/
theorem required_plain {value : Option String} {s : String}
    (hvalue : ∀ s ∈ value, Text.Plain s) (h : required ini group key value = .ok s) :
    Text.Plain s := by
  unfold required at h
  cases value with
  | some v =>
    cases h
    exact hvalue s rfl
  | none =>
    unfold text? at h
    cases hfind : ini.find? group key with
    | none =>
      rw [hfind] at h
      cases h
    | some t =>
      rw [hfind] at h
      by_cases hblank : Text.trim t = ""
      · simp [Option.filter, hblank] at h
      · obtain rfl : Text.trim t = s := by simpa [Option.filter, hblank] using h
        exact Text.plain_trim hblank

theorem build_required {o : Overrides} {s : Settings} (h : build ini o = .ok s) :
    required ini "data" "ticker" o.ticker = .ok s.request.ticker ∧
      required ini "data" "timeframe" o.timeframe = .ok s.request.timeframe := by
  unfold build at h
  obtain ⟨ticker, hticker, h⟩ := ok_of_bind h
  obtain ⟨timeframe, htimeframe, h⟩ := ok_of_bind h
  obtain ⟨⟨first, last⟩, -, h⟩ := ok_of_bind h
  obtain ⟨bars, -, h⟩ := ok_of_bind h
  obtain ⟨limit, -, h⟩ := ok_of_bind h
  obtain ⟨precision, -, h⟩ := ok_of_bind h
  cases h
  exact ⟨hticker, htimeframe⟩

/-- **Overrides are as good as values of the file**, and what is built from either has a ticker and
a timeframe that are not blank. -/
theorem overrides_as_values {o : Overrides} (hsized : o.Sized) (hplain : o.Plain) (ini : Ini) :
    build ini o = build (o.written ini) .none ∧
      ∀ s, build ini o = .ok s →
        Text.trim s.request.ticker ≠ "" ∧ Text.trim s.request.timeframe ≠ "" := by
  refine ⟨build_eq_written hsized hplain ini, fun s hs => ?_⟩
  obtain ⟨hticker, htimeframe⟩ := build_required hs
  exact ⟨(required_plain hplain.ticker hticker).not_blank,
    (required_plain hplain.timeframe htimeframe).not_blank⟩

/-- A file without a ticker. -/
def hourly : Ini := ⟨[⟨"data", "timeframe", some "1h"⟩]⟩

/-- The ticker and the number of bars are overridden. -/
def lastTwo : Overrides := ⟨none, some "ETH", none, some 2, true, none⟩

theorem overrides_as_values_lastTwo : lastTwo.Sized ∧ lastTwo.Plain ∧
    build hourly lastTwo = build (lastTwo.written hourly) .none ∧
    build hourly lastTwo = .ok ⟨".", ⟨"ETH", "1h", none, none, none⟩, some 2, false, ⟨10⟩⟩ := by
  have hsized : lastTwo.Sized := ⟨by rintro _ ⟨⟩; decide, nofun⟩
  have hplain : lastTwo.Plain := ⟨nofun, by rintro _ ⟨⟩; exact ⟨by decide, by decide⟩, nofun⟩
  exact ⟨hsized, hplain, (overrides_as_values hsized hplain hourly).1, by with_unfolding_all rfl⟩

/-- The ticker is overridden by a blank. -/
def blankTicker : Overrides := ⟨none, some " ", none, none, false, none⟩

/-- A blank ticker is accepted from an override, and missed in a file. -/
theorem blank_override : Ini.read "[data]\ntimeframe = 1h\n" = .ok hourly ∧ blankTicker.Sized ∧
    build hourly blankTicker = .ok ⟨".", ⟨" ", "1h", none, none, none⟩, none, true, ⟨10⟩⟩ ∧
    build (blankTicker.written hourly) .none = .error (.configMissing "data" "ticker") := by
  refine ⟨by with_unfolding_all rfl, ⟨nofun, nofun⟩, ?_, ?_⟩ <;> with_unfolding_all rfl

end Settings

end BarScript
