import BarScript.Calendar.Date
import BarScript.Decimal.Reading
import BarScript.Text.Blank

/-!
# Instants

An instant is a second, counted from the first of January 1970, and the nanoseconds since then. A
leap second is kept as the second before it with a nanosecond count beyond one second, so it comes
after that second and before the next. `Instant.read?` understands three spellings: the number of
milliseconds, a date, and a date with a time of day and an offset; `Instant.minuteText` writes the
date and the time of day to the minute.
-/

namespace BarScript

structure Instant where
  second : Int
  nano : Nat
  deriving DecidableEq, Repr

namespace Instant

def secondsPerDay : Int := 86400

/-- The instant of a number of milliseconds. -/
def ofMillis (millis : Int) : Instant := ⟨millis / 1000, (millis % 1000).toNat * 1000000⟩

/-- The number of whole milliseconds. -/
def millis (t : Instant) : Int := t.second * 1000 + t.nano / 1000000

/-- The first instant is earlier. -/
def isBefore (s t : Instant) : Bool :=
  decide (s.second < t.second ∨ s.second = t.second ∧ s.nano < t.nano)

/-- The years that instants lie in. -/
def inYears (year : Int) : Bool := decide (-262143 ≤ year ∧ year ≤ 262142)

/-- The numbers of milliseconds that lie in those years. -/
def inRange (millis : Int) : Bool := decide (-8334601228800000 ≤ millis ∧ millis < 8210266876800000)

/-- Readers of the front of a text: a value and what follows it. -/
abbrev Reader (β : Type) := StateT (List Char) Option β

namespace Reader

/-- A given character. -/
def char (c : Char) : Reader Unit := fun
  | x :: cs => if x = c then some ((), cs) else none
  | [] => none

/-- At least `least` and at most `most` digits; without `most`, as many as there are. -/
def digits (least : Nat) (most : Option Nat) : Reader (List Char) := fun cs =>
  let all := cs.takeWhile Char.isDigit
  let ds := all.take (most.getD all.length)
  if ds.length < least then none else some (ds, cs.drop ds.length)

/-- A number of at least `least` and at most `most` digits, between `low` and `high`. -/
def number (least : Nat) (most : Option Nat) (low high : Nat) : Reader Nat := do
  let n := Literal.digitsValue (← digits least most)
  if low ≤ n ∧ n ≤ high then return n else failure

/-- Any number of blanks. -/
def blanks : Reader Unit := fun cs => some ((), cs.dropWhile Text.isBlank)

/-- A number with a sign; four digits at most without one. -/
def year : Reader Int := fun
  | '-' :: cs => (number 1 none 0 (twoTo 31)).run cs |>.map fun (n, r) => (-n, r)
  | '+' :: cs => (number 1 none 0 (twoTo 31 - 1)).run cs |>.map fun (n, r) => (n, r)
  | cs => (number 1 (some 4) 0 9999).run cs |>.map fun (n, r) => (n, r)

/-- Year, month and day, with blanks in front of each and hyphens between them. -/
def date : Reader Date := do
  blanks
  let year ← year
  char '-'
  blanks
  let month ← number 1 (some 2) 1 12
  char '-'
  blanks
  let day ← number 1 (some 2) 1 31
  return ⟨year, month, day⟩

/-- Year, month and day with four, two and two digits. -/
def fullDate : Reader Date := do
  let year ← number 4 (some 4) 0 9999
  char '-'
  let month ← number 2 (some 2) 1 12
  char '-'
  let day ← number 2 (some 2) 1 31
  return ⟨year, month, day⟩

/-- The letter or the blank between a date and a time. -/
def separator : Reader Unit := fun
  | 'T' :: cs => some ((), cs)
  | 't' :: cs => some ((), cs)
  | ' ' :: cs => some ((), cs)
  | _ => none

/-- The nanoseconds of a fraction of a second, if there is one; further digits are cut off. -/
def fraction : Reader Nat := fun
  | '.' :: cs => (digits 1 none).run cs |>.map fun (ds, r) =>
      (Literal.digitsValue ((ds ++ List.replicate 9 '0').take 9), r)
  | cs => some (0, cs)

/-- Seconds since midnight and nanoseconds; a minute may have a leap second. -/
def timeOfDay : Reader (Nat × Nat) := do
  let hour ← number 2 (some 2) 0 23
  char ':'
  let minute ← number 2 (some 2) 0 59
  char ':'
  let second ← number 2 (some 2) 0 60
  let nano ← fraction
  let minutes := 60 * hour + minute
  return if second = 60 then (60 * minutes + 59, 1000000000 + nano) else (60 * minutes + second, nano)

/-- Hours and minutes ahead of universal time, in seconds. -/
def aheadBy : Reader Int := do
  let hours ← number 2 (some 2) 0 23
  char ':'
  let minutes ← number 2 (some 2) 0 59
  return (60 * hours + minutes) * 60

/-- The offset of a local time from universal time, in seconds. -/
def offset : Reader Int := fun
  | 'Z' :: cs => some (0, cs)
  | 'z' :: cs => some (0, cs)
  | '+' :: cs => aheadBy.run cs
  | '-' :: cs => aheadBy.run cs |>.map fun (n, r) => (-n, r)
  | '\u2212' :: cs => aheadBy.run cs |>.map fun (n, r) => (-n, r)
  | _ => none

/-- What a reader makes of a whole text. -/
def whole? {β : Type} (r : Reader β) (cs : List Char) : Option β :=
  match r.run cs with
  | some (x, []) => some x
  | _ => none

end Reader

/-- The second that a date begins with. -/
def midnight? (d : Date) : Option Int :=
  if d.isValid && inYears d.year then some (d.number * secondsPerDay) else none

/-- A date with a time of day and an offset. -/
def stamp : Reader (Date × Int × Nat) := do
  let date ← Reader.fullDate
  Reader.separator
  let (second, nano) ← Reader.timeOfDay
  let offset ← Reader.offset
  return (date, second - offset, nano)

/-- Midnight of the date that a text is. -/
def ofDateText? (cs : List Char) : Option Instant := do
  let date ← Reader.date.whole? cs
  let second ← midnight? date
  return ⟨second, 0⟩

/-- The instant of a text with a date, a time of day and an offset. -/
def ofStampText? (cs : List Char) : Option Instant := do
  let (date, time, nano) ← stamp.whole? cs
  let second ← midnight? date
  return ⟨second + time, nano⟩

/-- The instant that a text names. A text that is an integer is a number of milliseconds. -/
def read? (text : String) : Option Instant :=
  let text := Text.trim text
  match readInteger? text with
  | some millis => if inRange millis then some (ofMillis millis) else none
  | none => ofDateText? text.toList <|> ofStampText? text.toList

/-- A number with at least `width` digits. -/
def padded (width n : Nat) : String :=
  let ds := Nat.toDigits 10 n
  String.ofList (List.replicate (width - ds.length) '0' ++ ds)

/-- A year; one that does not have four digits carries its sign. -/
def yearText (year : Int) : String :=
  let digits := padded 4 year.natAbs
  if year < 0 then "-" ++ digits else if year ≤ 9999 then digits else "+" ++ digits

/-- The date and the time of day, to the minute. -/
def minuteText (t : Instant) : String :=
  let date := Date.ofNumber (t.second / secondsPerDay)
  let minutes := (t.second % secondsPerDay / 60).toNat
  let year := yearText date.year
  let month := padded 2 date.month
  let day := padded 2 date.day
  let hour := padded 2 (minutes / 60)
  let minute := padded 2 (minutes % 60)
  s!"{year}-{month}-{day} {hour}:{minute}"

end Instant

end BarScript
