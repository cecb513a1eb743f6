import Mathlib
import BarScript.Data.Table
import BarScript.Proofs.Machine
import BarScript.Proofs.Tiling

/-!
# What tables say

A table that can be read lists one bar per row: the cells under the names of a bar spell its times
and prices (`Table.Spells`). Reading a text succeeds exactly if its header has the columns that are
needed and all rows spell bars, and gives these bars in the order of their opening
(`Table.read_ok_iff`). Without a column of close times they cover the time without gaps
(`Table.read_tiles`).
-/

namespace BarScript.Table

theorem bind_eq_ok_iff {ε β γ : Type} {m : Except ε β} {f : β → Except ε γ} {y : γ} :
    m >>= f = .ok y ↔ ∃ x, m = .ok x ∧ f x = .ok y := by
  cases m with
  | ok x => exact ⟨fun h => ⟨x, rfl, h⟩, fun ⟨_, hx, h⟩ => Except.ok.inj hx ▸ h⟩
  | error e => exact ⟨nofun, fun ⟨_, hx, _⟩ => nomatch hx⟩

/-! ## Cells -/

/-- The cell of a row under a name, the first one if the header has the name more than once. -/
def cell? (header row : List String) (name : String) : Option String :=
  ((header.zip row).find? fun p => isNamed name p.1).map (·.2)

/-- A cell spells a time. -/
def SaysTime (cell : Option String) (millis : Int) : Prop :=
  ∃ text t, cell = some text ∧ Instant.read? text = some t ∧ t.millis = millis

/-- A cell spells a number; blanks around it do not matter. -/
def SaysNumber {α : Type} [Arith α] (cell : Option String) (x : α) : Prop :=
  ∃ text reading, cell = some text ∧ readNumber (Text.trim text) = .ok reading ∧ reading.value = x

/-- The names of the columns that a table needs. -/
def neededNames : List String := ["open_time", "open", "high", "low", "close", "volume"]

/-- The names of the columns that a table can have besides others. -/
def usedNames : List String := "close_time" :: neededNames

def hasColumn (header : List String) (name : String) : Bool := header.any (isNamed name)

variable {α : Type} [Arith α]

/-- A row spells a bar; without a column of close times the bar closes when it opens. -/
structure Spells (header row : List String) (b : Bar α) : Prop where
  width : row.length = header.length
  openTime : SaysTime (cell? header row "open_time") b.openTime
  closeTime :
    if hasColumn header "close_time" then SaysTime (cell? header row "close_time") b.closeTime
    else b.closeTime = b.openTime
  opening : SaysNumber (cell? header row "open") b.opening
  high : SaysNumber (cell? header row "high") b.high
  low : SaysNumber (cell? header row "low") b.low
  close : SaysNumber (cell? header row "close") b.close
  volume : SaysNumber (cell? header row "volume") b.volume

section

variable {header : List String} {name : String} {r : Csv.Record} {i : Nat}

theorem cell?_of_column? {row : List String} (hwidth : row.length = header.length)
    (h : column? header name = some i) : row[i]? = cell? header row name := by
  induction header generalizing row i with
  | nil => exact nomatch h
  | cons head header ih =>
    obtain ⟨cell, row, rfl⟩ := List.exists_cons_of_length_eq_add_one hwidth
    rw [column?, List.findIdx?_cons] at h
    rw [cell?, List.zip_cons_cons, List.find?_cons]
    split at h
    next hnamed =>
      obtain rfl := Option.some.inj h
      rw [hnamed]
      rfl
    next hnamed =>
      obtain ⟨j, hj, rfl⟩ := Option.map_eq_some_iff.1 h
      rw [Bool.not_eq_true] at hnamed
      rw [hnamed]
      exact ih (Nat.succ.inj hwidth) hj

theorem hasColumn_iff : hasColumn header name = true ↔ ∃ i, column? header name = some i := by
  rw [← Option.isSome_iff_exists, column?, List.findIdx?_isSome, hasColumn]

theorem field_ok_iff {text : String} : field r name i = .ok text ↔ r.fields[i]? = some text := by
  unfold field
  split
  next text' h => rw [h, Except.ok.injEq, Option.some.injEq]
  next h => simp [h]

theorem time_ok_iff {millis : Int} : time r name i = .ok millis ↔ SaysTime r.fields[i]? millis := by
  rw [time, bind_eq_ok_iff]
  constructor
  · rintro ⟨text, htext, h⟩
    split at h
    next t ht => exact ⟨text, t, field_ok_iff.1 htext, ht, Except.ok.inj h⟩
    next => exact nomatch h
  · rintro ⟨text, t, htext, ht, rfl⟩
    refine ⟨text, field_ok_iff.2 htext, ?_⟩
    rw [ht]

theorem number_ok_iff {x : α} : number r name i = .ok x ↔ SaysNumber r.fields[i]? x := by
  rw [number, bind_eq_ok_iff]
  constructor
  · rintro ⟨text, htext, h⟩
    split at h
    next reading hreading =>
      exact ⟨text, reading, field_ok_iff.1 htext, hreading, Except.ok.inj h⟩
    next => exact nomatch h
  · rintro ⟨text, reading, htext, hreading, rfl⟩
    refine ⟨text, field_ok_iff.2 htext, ?_⟩
    rw [hreading]

theorem column_ok_iff : column header name = .ok i ↔ column? header name = some i := by
  unfold column
  split
  next j h => rw [h, Except.ok.injEq, Option.some.injEq]
  next h => simp [h]

theorem columns_ok_iff {c : Columns} : columns header = .ok c ↔
    column? header "open_time" = some c.openTime ∧ column? header "close_time" = c.closeTime ∧
      column? header "open" = some c.opening ∧ column? header "high" = some c.high ∧
      column? header "low" = some c.low ∧ column? header "close" = some c.close ∧
      column? header "volume" = some c.volume := by
  obtain ⟨openTime, closeTime, opening, high, low, close, volume⟩ := c
  simp only [columns, bind_eq_ok_iff, column_ok_iff, pure, Except.pure, Except.ok.injEq,
    Columns.mk.injEq]
  constructor
  · rintro ⟨_, h1, _, h2, _, h3, _, h4, _, h5, _, h6, rfl, rfl, rfl, rfl, rfl, rfl, rfl⟩
    exact ⟨h1, rfl, h2, h3, h4, h5, h6⟩
  · rintro ⟨h1, h0, h2, h3, h4, h5, h6⟩
    exact ⟨_, h1, _, h2, _, h3, _, h4, _, h5, _, h6, rfl, h0, rfl, rfl, rfl, rfl, rfl⟩

theorem exists_columns_iff :
    (∃ c, columns header = .ok c) ↔ ∀ name ∈ neededNames, hasColumn header name = true := by
  simp only [neededNames, List.forall_mem_cons, List.not_mem_nil, hasColumn_iff]
  constructor
  · rintro ⟨c, hc⟩
    obtain ⟨h1, -, h2, h3, h4, h5, h6⟩ := columns_ok_iff.1 hc
    exact ⟨⟨_, h1⟩, ⟨_, h2⟩, ⟨_, h3⟩, ⟨_, h4⟩, ⟨_, h5⟩, ⟨_, h6⟩, nofun⟩
  · rintro ⟨⟨openTime, h1⟩, ⟨opening, h2⟩, ⟨high, h3⟩, ⟨low, h4⟩, ⟨close, h5⟩, ⟨volume, h6⟩, -⟩
    exact ⟨⟨openTime, column? header "close_time", opening, high, low, close, volume⟩,
      columns_ok_iff.2 ⟨h1, rfl, h2, h3, h4, h5, h6⟩⟩

variable {c : Columns}

theorem closeTime_isSome (hc : columns header = .ok c) :
    c.closeTime.isSome = hasColumn header "close_time" := by
  rw [← (columns_ok_iff.1 hc).2.1, column?, List.findIdx?_isSome, hasColumn]

/-- When the bar of a record closes. -/
def closing (c : Columns) (r : Csv.Record) (openTime : Int) : Except Failure Int :=
  match c.closeTime with
  | some i => time r "close_time" i
  | none => .ok openTime

theorem bar_eq (c : Columns) (r : Csv.Record) : (bar c r : Except Failure (Bar α)) = do
    let openTime ← time r "open_time" c.openTime
    let closeTime ← closing c r openTime
    let opening ← number r "open" c.opening
    let high ← number r "high" c.high
    let low ← number r "low" c.low
    let close ← number r "close" c.close
    let volume ← number r "volume" c.volume
    return ⟨openTime, closeTime, opening, high, low, close, volume⟩ := by
  unfold bar closing
  cases c.closeTime <;> rfl

theorem closing_ok_iff (hc : columns header = .ok c) (hwidth : r.fields.length = header.length)
    {openTime closeTime : Int} : closing c r openTime = .ok closeTime ↔
      if hasColumn header "close_time" then SaysTime (cell? header r.fields "close_time") closeTime
      else closeTime = openTime := by
  rw [closing, ← closeTime_isSome hc]
  cases hi : c.closeTime with
  | some i =>
    have hcolumn : column? header "close_time" = some i := (columns_ok_iff.1 hc).2.1.trans hi
    rw [time_ok_iff, cell?_of_column? hwidth hcolumn, Option.isSome_some, if_pos rfl]
  | none =>
    rw [Option.isSome_none, if_neg Bool.false_ne_true, Except.ok.injEq]
    exact eq_comm

/-- The bar of a record is the one that its fields spell. -/
theorem bar_ok_iff (hc : columns header = .ok c) (hwidth : r.fields.length = header.length)
    {b : Bar α} : bar c r = .ok b ↔ Spells header r.fields b := by
  obtain ⟨h1, -, h2, h3, h4, h5, h6⟩ := columns_ok_iff.1 hc
  have hcell {name : String} {i : Nat} (h : column? header name = some i) :
      r.fields[i]? = cell? header r.fields name := cell?_of_column? hwidth h
  simp only [bar_eq, bind_eq_ok_iff, time_ok_iff, closing_ok_iff hc hwidth, number_ok_iff, hcell h1,
    hcell h2, hcell h3, hcell h4, hcell h5, hcell h6]
  constructor
  · rintro ⟨openTime, h1, closeTime, h0, opening, h2, high, h3, low, h4, close, h5, volume, h6, h⟩
    obtain rfl := Except.ok.inj h
    exact ⟨hwidth, h1, h0, h2, h3, h4, h5, h6⟩
  · rintro ⟨-, h1, h0, h2, h3, h4, h5, h6⟩
    exact ⟨_, h1, _, h0, _, h2, _, h3, _, h4, _, h5, _, h6, rfl⟩

theorem bars_ok_iff (hc : columns header = .ok c) {rs : List Csv.Record} {bs : List (Bar α)} :
    bars c header.length rs = .ok bs ↔ List.Forall₂ (Spells header) (rs.map (·.fields)) bs := by
  induction rs generalizing bs with
  | nil =>
    rw [bars, Except.ok.injEq, List.map_nil, List.forall₂_nil_left_iff]
    exact eq_comm
  | cons r rs ih =>
    rw [List.map_cons, List.forall₂_cons_left_iff]
    by_cases hwidth : r.fields.length = header.length
    · have hcons : bars c header.length (r :: rs) = (do
          let b : Bar α ← bar c r
          return b :: (← bars c header.length rs)) := by
        rw [bars, if_neg (not_not.2 hwidth)]
      simp only [hcons, bind_eq_ok_iff, bar_ok_iff hc hwidth, ih]
      constructor
      · rintro ⟨b, hb, bs, hbs, h⟩
        exact ⟨b, bs, hb, hbs, (Except.ok.inj h).symm⟩
      · rintro ⟨b, bs, hb, hbs, rfl⟩
        exact ⟨b, hb, bs, hbs, rfl⟩
    · constructor
      · intro h
        rw [bars, if_pos hwidth] at h
        exact nomatch h
      · rintro ⟨b, bs, hb, -⟩
        exact absurd hb.width hwidth

end

/-! ## Sheets -/

/-- The header of a table and its rows. -/
structure Sheet where
  header : List String
  rows : List (List String)
  deriving DecidableEq, Repr

namespace Sheet

/-- A text holds a sheet, on whatever lines. -/
def HeldBy (s : Sheet) (text : String) : Prop :=
  (split text).1 = s.header ∧ (split text).2.map (·.fields) = s.rows

/-- A sheet has the columns that are needed, and its rows spell bars. -/
structure Lists (s : Sheet) (bs : List (Bar α)) : Prop where
  needed : ∀ name ∈ neededNames, hasColumn s.header name = true
  rows : List.Forall₂ (Spells s.header) s.rows bs

/-- The bars of a sheet in the order of their opening, with close times from their neighbours if the
sheet gives none. -/
def arranged {α : Type} (s : Sheet) (bs : List (Bar α)) : List (Bar α) :=
  if hasColumn s.header "close_time" then Market.sorted bs else deriveCloseTimes (Market.sorted bs)

end Sheet

/-- **What a text is read as.** -/
theorem read_ok_iff {s : Sheet} {text : String} (hheld : s.HeldBy text) {loaded : List (Bar α)} :
    read text = .ok loaded ↔ ∃ bs, s.Lists bs ∧ s.arranged bs = loaded := by
  obtain ⟨hheader, hrows⟩ := hheld
  have hread : read text = (do
      let c ← columns s.header
      let bs : List (Bar α) ← bars c s.header.length (split text).2
      return Table.arranged c bs) := by
    rw [← hheader]
    rfl
  simp only [hread, bind_eq_ok_iff]
  constructor
  · rintro ⟨c, hc, bs, hbs, h⟩
    rw [bars_ok_iff hc, hrows] at hbs
    refine ⟨bs, ⟨exists_columns_iff.1 ⟨c, hc⟩, hbs⟩, ?_⟩
    rw [← Except.ok.inj h, Table.arranged, closeTime_isSome hc, Sheet.arranged]
  · rintro ⟨bs, ⟨hneeded, hbs⟩, rfl⟩
    obtain ⟨c, hc⟩ := exists_columns_iff.2 hneeded
    refine ⟨c, hc, bs, (bars_ok_iff hc).2 (hrows ▸ hbs), ?_⟩
    rw [Table.arranged, closeTime_isSome hc, Sheet.arranged]
    rfl

/-! ## Times -/

theorem SaysTime.readable {cell : Option String} {millis : Int} (h : SaysTime cell millis) :
    Instant.Readable millis := by
  obtain ⟨text, t, -, ht, rfl⟩ := h
  exact ⟨text, text, t, t, ht, ht, Int.le_refl _, Int.le_refl _⟩

theorem Sheet.Lists.readable {s : Sheet} {bs : List (Bar α)} (h : s.Lists bs) :
    ∀ b ∈ bs, Instant.Readable b.openTime := by
  intro b hb
  obtain ⟨i, hi, rfl⟩ := List.mem_iff_getElem.1 hb
  exact (h.rows.get (h.rows.length_eq ▸ hi) hi).openTime.readable

/-- The bars of a table without a column of close times tile the time line, and no number is too
large for a word when their close times are computed. -/
theorem read_tiles {s : Sheet} {text : String} (hheld : s.HeldBy text) {loaded : List (Bar α)}
    (hread : read text = .ok loaded) (hclose : hasColumn s.header "close_time" = false) :
    Tiles loaded ∧ ∃ bs : List (Bar α), s.Lists bs ∧
      closeTimesInWords none (Market.sorted bs) = some loaded := by
  obtain ⟨bs, hlists, rfl⟩ := (read_ok_iff hheld).1 hread
  rw [Sheet.arranged, hclose, if_neg Bool.false_ne_true]
  refine ⟨deriveCloseTimes_tiles (Market.sorted_pairwise bs), bs, hlists, ?_⟩
  exact closeTimesInWords_eq nofun fun b hb =>
    hlists.readable b ((Market.sorted_perm bs).mem_iff.1 hb)

end BarScript.Table
