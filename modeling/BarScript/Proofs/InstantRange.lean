import Mathlib
import BarScript.Calendar.Instant

/-!
# The range of instants

Whatever spelling a text uses, the instant that it names lies in the years of the calendar, so its
milliseconds are in range (`Instant.inRange_of_read?`). A date is bounded by its year, a time of day
and an offset by the numbers that they are written with.
-/

namespace BarScript

/-- Decimal digits are worth less than the power of ten that they are as many as. -/
theorem Literal.digitsValue_lt {ds : List Char} (h : ∀ d ∈ ds, d.isDigit = true) :
    Literal.digitsValue ds < 10 ^ ds.length := by
  induction ds using List.reverseRecOn with
  | nil => exact Nat.one_pos
  | append_singleton ds d ih =>
    obtain ⟨hds, hd⟩ := List.forall_mem_append.1 h
    have hdigit : d.toNat ≤ 57 := by
      have hd := hd d (List.mem_singleton_self d)
      rw [Char.isDigit, Bool.and_eq_true, decide_eq_true_eq, decide_eq_true_eq] at hd
      exact UInt32.le_iff_toNat_le.1 hd.2
    have hvalue : digitsValue (ds ++ [d]) = 10 * digitsValue ds + (d.toNat - 48) := by
      rw [digitsValue, List.foldl_append]
      rfl
    have hrest := ih hds
    rw [hvalue, List.length_append, List.length_singleton, pow_succ]
    omega

namespace Instant

namespace Reader

variable {β γ : Type} {cs rest : List Char} {n : Nat}

theorem run_bind {p : Reader β} {f : β → Reader γ} {y : γ}
    (h : (p >>= f).run cs = some (y, rest)) :
    ∃ x more, p.run cs = some (x, more) ∧ (f x).run more = some (y, rest) := by
  rw [StateT.run_bind] at h
  obtain ⟨⟨x, more⟩, hx, hy⟩ := Option.bind_eq_some_iff.1 h
  exact ⟨x, more, hx, hy⟩

theorem run_pure {x y : β} (h : (pure x : Reader β).run cs = some (y, rest)) : x = y := by
  cases h
  rfl

theorem digits_isDigit {least : Nat} {most : Option Nat} {ds : List Char}
    (h : (digits least most).run cs = some (ds, rest)) : ∀ d ∈ ds, d.isDigit = true := by
  unfold digits StateT.run at h
  dsimp only at h
  split at h
  · exact nomatch h
  · cases h
    exact fun d hd => List.mem_takeWhile_imp (List.mem_of_mem_take hd)

theorem number_mem {least low high : Nat} {most : Option Nat}
    (h : (number least most low high).run cs = some (n, rest)) : low ≤ n ∧ n ≤ high := by
  obtain ⟨ds, more, -, h⟩ := run_bind h
  dsimp only at h
  split at h
  · obtain rfl := run_pure h
    assumption
  · exact nomatch h

theorem fraction_lt (h : fraction.run cs = some (n, rest)) : n < 1000000000 := by
  unfold fraction StateT.run at h
  dsimp only at h
  split at h
  · obtain ⟨⟨ds, _⟩, hds, heq⟩ := Option.map_eq_some_iff.1 h
    cases heq
    have hdigit : ∀ d ∈ (ds ++ List.replicate 9 '0').take 9, d.isDigit = true := by
      intro d hd
      rcases List.mem_append.1 (List.mem_of_mem_take hd) with hd | hd
      · exact digits_isDigit hds d hd
      · obtain rfl := List.eq_of_mem_replicate hd
        rfl
    refine (Literal.digitsValue_lt hdigit).trans_eq ?_
    rw [List.length_take_of_le (by simp)]
    rfl
  · cases h
    exact Nat.zero_lt_succ _

theorem timeOfDay_lt {second nano : Nat} (h : timeOfDay.run cs = some ((second, nano), rest)) :
    second < 86400 ∧ nano < 2000000000 := by
  obtain ⟨hour, _, hhour, h⟩ := run_bind h
  obtain ⟨-, _, -, h⟩ := run_bind h
  obtain ⟨minute, _, hminute, h⟩ := run_bind h
  obtain ⟨-, _, -, h⟩ := run_bind h
  obtain ⟨second, _, hsecond, h⟩ := run_bind h
  obtain ⟨nano, _, hnano, h⟩ := run_bind h
  have hhour := number_mem hhour
  have hminute := number_mem hminute
  have hsecond := number_mem hsecond
  have hnano := fraction_lt hnano
  have hpair := run_pure h
  split at hpair <;> cases hpair <;> omega

theorem aheadBy_mem {seconds : Int} (h : aheadBy.run cs = some (seconds, rest)) :
    0 ≤ seconds ∧ seconds < 86400 := by
  obtain ⟨hours, _, hhours, h⟩ := run_bind h
  obtain ⟨-, _, -, h⟩ := run_bind h
  obtain ⟨minutes, _, hminutes, h⟩ := run_bind h
  have hhours := number_mem hhours
  have hminutes := number_mem hminutes
  obtain rfl := run_pure h
  omega

theorem offset_mem {seconds : Int} (h : offset.run cs = some (seconds, rest)) :
    -86400 < seconds ∧ seconds < 86400 := by
  unfold offset StateT.run at h
  dsimp only at h
  split at h
  case h_1 | h_2 =>
    cases h
    omega
  case h_3 =>
    have := aheadBy_mem h
    omega
  case h_4 | h_5 =>
    obtain ⟨⟨ahead, _⟩, hahead, heq⟩ := Option.map_eq_some_iff.1 h
    cases heq
    have := aheadBy_mem hahead
    omega
  case h_6 => exact nomatch h

theorem fullDate_year {d : Date} (h : fullDate.run cs = some (d, rest)) :
    0 ≤ d.year ∧ d.year ≤ 9999 := by
  obtain ⟨year, _, hyear, h⟩ := run_bind h
  obtain ⟨-, _, -, h⟩ := run_bind h
  obtain ⟨month, _, -, h⟩ := run_bind h
  obtain ⟨-, _, -, h⟩ := run_bind h
  obtain ⟨day, _, -, h⟩ := run_bind h
  have hyear := number_mem hyear
  obtain rfl := run_pure h
  simp only
  omega

theorem whole?_some {p : Reader β} {x : β} (h : whole? p cs = some x) :
    p.run cs = some (x, []) := by
  rw [whole?] at h
  split at h
  · cases h
    assumption
  · exact nomatch h

end Reader

theorem month_day_mem {d : Date} (h : d.isValid = true) :
    1 ≤ d.month ∧ d.month ≤ 12 ∧ 1 ≤ d.day ∧ d.day ≤ 31 := by
  rw [Date.isValid, decide_eq_true_eq] at h
  obtain ⟨hmonth, hmonth', hday, hlast⟩ := h
  have hlength : Date.daysInMonth d.year d.month ≤ 31 := by
    unfold Date.daysInMonth
    split_ifs <;> omega
  exact ⟨hmonth, hmonth', hday, hlast.trans hlength⟩

/-- The days of the years that instants lie in. -/
theorem number_mem {d : Date} (h : d.isValid = true) (hyear : inYears d.year = true) :
    -96465292 ≤ d.number ∧ d.number < 95026237 := by
  obtain ⟨hmonth, hmonth', hday, hday'⟩ := month_day_mem h
  rw [inYears, decide_eq_true_eq] at hyear
  -- inside of a year days are counted from a constant, so the first and the last year stand alone
  by_cases hfirst : d.year = -262143
  · simp only [Date.number, Date.daysBeforeMonth, Date.epoch, hfirst]
    split_ifs <;> omega
  by_cases hfinal : d.year = 262142
  · simp only [Date.number, Date.daysBeforeMonth, Date.epoch, hfinal]
    split_ifs <;> omega
  · simp only [Date.number, Date.daysBeforeMonth, Date.epoch]
    split_ifs <;> omega

/-- The days of years with four digits, roughly. -/
theorem number_of_fullDate {d : Date} (h : d.isValid = true) (hyear : 0 ≤ d.year ∧ d.year ≤ 9999) :
    -800000 ≤ d.number ∧ d.number ≤ 4000000 := by
  obtain ⟨hmonth, hmonth', hday, hday'⟩ := month_day_mem h
  simp only [Date.number, Date.daysBeforeMonth, Date.epoch]
  split_ifs <;> omega

theorem midnight?_some {d : Date} {second : Int} (h : midnight? d = some second) :
    d.isValid = true ∧ inYears d.year = true ∧ second = d.number * 86400 := by
  unfold midnight? at h
  split at h
  · rename_i hd
    rw [Bool.and_eq_true] at hd
    cases h
    exact ⟨hd.1, hd.2, rfl⟩
  · exact nomatch h

theorem millis_ofMillis (millis : Int) : (ofMillis millis).millis = millis := by
  simp only [Instant.millis, ofMillis]
  omega

theorem inRange_of_date {cs : List Char} {t : Instant} (h : ofDateText? cs = some t) :
    inRange t.millis = true := by
  obtain ⟨date, -, h⟩ := Option.bind_eq_some_iff.1 h
  obtain ⟨second, hsecond, h⟩ := Option.bind_eq_some_iff.1 h
  obtain ⟨hvalid, hyear, rfl⟩ := midnight?_some hsecond
  have hnumber := number_mem hvalid hyear
  cases h
  refine decide_eq_true ?_
  simp only [Instant.millis]
  omega

/-- The year of a stamp has four digits, so an offset leads nowhere near the ends of the range. -/
theorem inRange_of_stamp {cs : List Char} {t : Instant} (h : ofStampText? cs = some t) :
    inRange t.millis = true := by
  obtain ⟨⟨date, time, nano⟩, hstamp, h⟩ := Option.bind_eq_some_iff.1 h
  obtain ⟨second, hsecond, h⟩ := Option.bind_eq_some_iff.1 h
  obtain ⟨hvalid, -, rfl⟩ := midnight?_some hsecond
  cases h
  obtain ⟨date', _, hdate, h⟩ := Reader.run_bind (Reader.whole?_some hstamp)
  obtain ⟨-, _, -, h⟩ := Reader.run_bind h
  obtain ⟨⟨second, nano'⟩, _, htime, h⟩ := Reader.run_bind h
  obtain ⟨offset, _, hoffset, h⟩ := Reader.run_bind h
  cases Reader.run_pure h
  have hnumber := number_of_fullDate hvalid (Reader.fullDate_year hdate)
  have htime := Reader.timeOfDay_lt htime
  have hoffset := Reader.offset_mem hoffset
  refine decide_eq_true ?_
  simp only [Instant.millis]
  omega

/-- **Instants are in range**, whatever text names them. -/
theorem inRange_of_read? {text : String} {t : Instant} (h : read? text = some t) :
    inRange t.millis = true := by
  unfold read? at h
  dsimp only at h
  split at h
  · rename_i millis _
    split at h
    · cases h
      rwa [millis_ofMillis]
    · exact nomatch h
  · rw [Option.orElse_apply, Option.orElse_eq_or, Option.or_eq_some_iff] at h
    rcases h with h | ⟨-, h⟩
    · exact inRange_of_date h
    · exact inRange_of_stamp h

end Instant

end BarScript
