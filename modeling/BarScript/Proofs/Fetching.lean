import Mathlib
import BarScript.Arith.Double
import BarScript.Data.Folder
import BarScript.Data.Memory
import BarScript.Files.Tree
import BarScript.Proofs.Ledger
import BarScript.Proofs.TableLayout

/-!
# What a request is answered with

A folder answers a request from a table, whatever its layout, and a series in memory answers it from
bars in whatever order: with the same bars, the newest ones of those that are wanted, in the order
of their opening (`Folder.fetch_layout`). Wanted are the bars that open in the span of the request.
It is compared in whole milliseconds, so a span that begins inside of a millisecond takes in the bar
that opened with it (`Folder.fetch_before_first`).
-/

namespace BarScript

/-! ## Spans of time -/

namespace Instant

variable {t : Instant} {millis : Int}

/-- A time is not before an instant that is a whole number of milliseconds. -/
theorem ofMillis_not_before_iff (hnano : t.nano < 1000000000) (hwhole : 1000000 ∣ t.nano) :
    (ofMillis millis).isBefore t = false ↔ t.millis ≤ millis := by
  rw [isBefore, decide_eq_false_iff_not]
  simp only [ofMillis, Instant.millis]
  omega

/-- An instant is not before a time. -/
theorem not_before_ofMillis_iff (hnano : t.nano < 1000000000) :
    t.isBefore (ofMillis millis) = false ↔ millis ≤ t.millis := by
  rw [isBefore, decide_eq_false_iff_not]
  simp only [ofMillis, Instant.millis]
  omega

end Instant

namespace Request

/-- A bar that opens at the time opens neither before the first instant nor after the last. -/
def Spans (r : Request) (openTime : Int) : Prop :=
  (∀ t ∈ r.first, (Instant.ofMillis openTime).isBefore t = false) ∧
    ∀ t ∈ r.last, t.isBefore (Instant.ofMillis openTime) = false

/-- The span begins with a millisecond, and neither of its ends is a leap second. -/
structure Whole (r : Request) : Prop where
  first : ∀ t ∈ r.first, t.nano < 1000000000 ∧ 1000000 ∣ t.nano
  last : ∀ t ∈ r.last, t.nano < 1000000000

/-- Whole milliseconds are compared as instants are. -/
theorem contains_iff {r : Request} (hwhole : r.Whole) (openTime : Int) :
    r.contains openTime = true ↔ r.Spans openTime := by
  rw [contains, Bool.and_eq_true, Option.all_eq_true, Option.all_eq_true]
  refine and_congr (forall₂_congr fun t ht => ?_) (forall₂_congr fun t ht => ?_)
  · obtain ⟨hnano, hmillis⟩ := hwhole.first t ht
    rw [decide_eq_true_eq, Instant.ofMillis_not_before_iff hnano hmillis]
  · rw [decide_eq_true_eq, Instant.not_before_ofMillis_iff (hwhole.last t ht)]

/-! ## Answers -/

variable {α : Type} {bars : List (Bar α)}

/-- The bars that are wanted, in the order of their opening; the older ones are left out if there
are more than the limit. -/
def Answers (wanted : Int → Prop) (limit : Option Nat) (bars answer : List (Bar α)) : Prop :=
  ∃ older : List (Bar α), (older ++ answer).Pairwise (·.openTime < ·.openTime) ∧
    (∀ b, b ∈ older ++ answer ↔ b ∈ bars ∧ wanted b.openTime) ∧
    answer.length = (limit.map (min · (older ++ answer).length)).getD (older ++ answer).length

theorem Answers.congr {wanted wanted' : Int → Prop} {limit : Option Nat} {answer : List (Bar α)}
    (h : Answers wanted limit bars answer) (hwanted : ∀ t, wanted t ↔ wanted' t) :
    Answers wanted' limit bars answer := by
  obtain ⟨older, hascending, hmem, hlength⟩ := h
  exact ⟨older, hascending, fun b => (hmem b).trans (and_congr_right' (hwanted _)), hlength⟩

theorem select_answers {r : Request} (hascending : bars.Pairwise (·.openTime < ·.openTime)) :
    Answers (r.contains · = true) r.limit bars (r.select bars) := by
  have hfilter : (bars.filter fun b => r.contains b.openTime).Pairwise (·.openTime < ·.openTime) :=
    hascending.filter _
  have hmem : ∀ b, b ∈ bars.filter (fun b => r.contains b.openTime) ↔
      b ∈ bars ∧ r.contains b.openTime = true := fun b => List.mem_filter
  unfold select
  generalize bars.filter (fun b => r.contains b.openTime) = wanted at hfilter hmem ⊢
  cases hlimit : r.limit with
  | none => exact ⟨[], hfilter, hmem, rfl⟩
  | some n =>
    refine ⟨wanted.take (wanted.length - n), ?_⟩
    dsimp only
    rw [lastOnes, List.take_append_drop]
    refine ⟨hfilter, hmem, ?_⟩
    rw [List.length_drop, Option.map_some, Option.getD_some]
    omega

end Request

/-! ## Bars from tables and bars in memory -/

variable {α : Type} {bars bars' : List (Bar α)}

theorem Market.sorted_ascending (hdistinct : bars.Pairwise (·.openTime ≠ ·.openTime)) :
    (Market.sorted bars).Pairwise (·.openTime < ·.openTime) := by
  have hne : (Market.sorted bars).Pairwise (·.openTime ≠ ·.openTime) :=
    (Market.sorted_perm bars).symm.pairwise hdistinct fun h => h.symm
  exact ((Market.sorted_pairwise bars).and hne).imp fun h => lt_of_le_of_ne h.1 h.2

theorem Market.sorted_eq_self (hascending : bars.Pairwise (·.openTime < ·.openTime)) :
    Market.sorted bars = bars :=
  List.mergeSort_of_pairwise (hascending.imp fun h => decide_eq_true (le_of_lt h))

theorem deriveCloseTimes_ascending (hascending : bars.Pairwise (·.openTime < ·.openTime)) :
    (deriveCloseTimes bars).Pairwise (·.openTime < ·.openTime) := by
  have hopens := openTimes_closeTimesAfter none bars
  have hmap : (bars.map (·.openTime)).Pairwise (· < ·) := List.pairwise_map.2 hascending
  rw [← hopens] at hmap
  exact List.pairwise_map.1 hmap

namespace Table.Sheet

variable {s s' : Sheet}

theorem arranged_ascending (hdistinct : bars.Pairwise (·.openTime ≠ ·.openTime)) :
    (s.arranged bars).Pairwise (·.openTime < ·.openTime) := by
  rw [arranged]
  split
  · exact Market.sorted_ascending hdistinct
  · exact deriveCloseTimes_ascending (Market.sorted_ascending hdistinct)

theorem arranged_eq_of_perm (hperm : bars'.Perm bars)
    (hdistinct : bars.Pairwise (·.openTime ≠ ·.openTime))
    (hnames : SameNames s.header s'.header) : s'.arranged bars' = s.arranged bars := by
  rw [arranged, arranged, hnames.hasColumn (by decide),
    Market.sorted_eq_of_perm hperm.symm hdistinct]

end Table.Sheet

theorem Memory.bars_insert (m : Memory α) (ticker timeframe : String) (bars : List (Bar α)) :
    (m.insert ticker timeframe bars).bars ticker timeframe = Market.sorted bars := by
  rw [Memory.bars, Memory.insert, List.find?_cons_of_pos (by simp [hasName])]
  rfl

/-- Bars that have been stored in any order are fetched in the order of their opening. -/
theorem Memory.fetch_insert (m : Memory α) (r : Request) (hperm : bars'.Perm bars)
    (hascending : bars.Pairwise (·.openTime < ·.openTime)) :
    (m.insert r.ticker r.timeframe bars').fetch r = r.select bars := by
  have hdistinct : bars.Pairwise (·.openTime ≠ ·.openTime) := hascending.imp fun h => h.ne
  rw [Memory.fetch, Memory.bars_insert, ← Market.sorted_eq_of_perm hperm.symm hdistinct,
    Market.sorted_eq_self hascending]

namespace Folder

variable [Arith α]

/-- What is fetched is selected from what is read. -/
theorem fetch_of_read {f : Folder} {r : Request} {tree : FileTree} {text : String}
    (hfile : tree.readText (f.path r.ticker r.timeframe) = .ok text)
    (hread : Table.read text = .ok bars) :
    (f.fetch r : StateM FileTree (Except Failure (List (Bar α)))).run tree =
      (.ok (r.select bars), tree) := by
  have hbars : (f.bars r.ticker r.timeframe : StateM FileTree (Except Failure (List (Bar α)))).run
      tree = pure (.ok bars, tree) := by
    simp [Folder.bars, Files.readText, hfile, hread]
  rw [Folder.fetch, StateT.run_bind, hbars]
  rfl

/-- **The layout of a table does not matter.** A table lists bars that open at different times,
under names of which no two are the same. Then a request is answered in the same way from every
table that differs in layout only, and from a series in memory with the same bars: with the newest
of the bars that are wanted, in the order of their opening. If the span begins with a millisecond and
no end of it is a leap second, these are the bars that open in it. -/
theorem fetch_layout {s s' : Table.Sheet} (hlists : s.Lists bars)
    (hnames : (s.header.map Table.plainName).Nodup)
    (hdistinct : bars.Pairwise (·.openTime ≠ ·.openTime))
    (hrelaid : Relation.ReflTransGen Table.Relaid s s') {text text' : String}
    (hheld : s.HeldBy text) (hheld' : s'.HeldBy text') (f : Folder) (r : Request)
    {tree tree' : FileTree} (hfile : tree.readText (f.path r.ticker r.timeframe) = .ok text)
    (hfile' : tree'.readText (f.path r.ticker r.timeframe) = .ok text') :
    ∃ answer : List (Bar α),
      (f.fetch r : StateM FileTree (Except Failure (List (Bar α)))).run tree =
        (.ok answer, tree) ∧
      (f.fetch r : StateM FileTree (Except Failure (List (Bar α)))).run tree' =
        (.ok answer, tree') ∧
      (∀ (m : Memory α) (bars' : List (Bar α)), bars'.Perm (s.arranged bars) →
        (m.insert r.ticker r.timeframe bars').fetch r = answer) ∧
      Request.Answers (r.contains · = true) r.limit (s.arranged bars) answer ∧
      (r.Whole → Request.Answers r.Spans r.limit (s.arranged bars) answer) := by
  have hascending := Table.Sheet.arranged_ascending (s := s) hdistinct
  obtain ⟨hsame, bars', hperm, hlists'⟩ :=
    Table.lists_of_relaid hrelaid (Table.unambiguous_of_nodup hnames) hlists
  have harranged := Table.Sheet.arranged_eq_of_perm hperm hdistinct hsame
  have hread := (Table.read_ok_iff hheld).2 ⟨bars, hlists, rfl⟩
  have hread' := (Table.read_ok_iff hheld').2 ⟨bars', hlists', harranged⟩
  have hanswers := Request.select_answers (r := r) hascending
  exact ⟨r.select (s.arranged bars), fetch_of_read hfile hread, fetch_of_read hfile' hread',
    fun m _ hperm => m.fetch_insert r hperm hascending, hanswers,
    fun hwhole => hanswers.congr (Request.contains_iff hwhole)⟩

/-! ### A table of two bars -/

/-- A character that is not the separator is passed over. -/
theorem splitOnAux_skip {s sep : String} {b i : String.Pos.Raw} {pieces : List String}
    (hend : ¬ i.atEnd s = true) (hne : ¬ (i.get s == String.Pos.Raw.get sep 0) = true) :
    s.splitOnAux sep b i 0 pieces = s.splitOnAux sep b ((i.unoffsetBy 0).next s) 0 pieces := by
  rw [String.splitOnAux, if_neg hend, if_neg hne]

theorem pieces_name : FileTree.pieces "X_1d.csv" = ["X_1d.csv"] := by
  rw [FileTree.pieces, String.splitOn, if_neg (by decide)]
  iterate 8 rw [splitOnAux_skip (by decide) (by decide)]
  rw [String.splitOnAux, if_pos (by decide)]
  rfl

/-- A tree of one file. -/
theorem readText_name (text : String) :
    FileTree.readText ⟨[(["X_1d.csv"], .text text)]⟩ ((⟨""⟩ : Folder).path "X" "1d") =
      .ok text := by
  have hfault : FileTree.pathFault? "X_1d.csv" = none := by decide
  have hsize : ¬ FileTree.maxNameSize < "X_1d.csv".utf8ByteSize := by decide
  have hpath : (⟨""⟩ : Folder).path "X" "1d" = "X_1d.csv" := if_pos (by simp)
  have hstart : FileTree.start "X_1d.csv" = .directory [] := if_neg (by simp)
  have hfollow : FileTree.follow ⟨[(["X_1d.csv"], .text text)]⟩ (.directory []) ["X_1d.csv"] =
      .ok (.file ["X_1d.csv"] (.text text)) := by
    simp [FileTree.follow, FileTree.enter, FileTree.child?, FileTree.find?, hsize]
  rw [hpath, FileTree.readText, FileTree.locate, hfault, hstart, pieces_name]
  simp only [hfollow]

/-- A table that gives neither close times nor a column without use. -/
def twoBars : Table.Sheet where
  header := ["open_time", "open", "high", "low", "close", "volume"]
  rows := [["1", "2", "4", "1", "3", "10"], ["2", "3", "5", "2", "4", "20"]]

def twoBarsText : String := "open_time,open,high,low,close,volume\n1,2,4,1,3,10\n2,3,5,2,4,20\n"

/-- The bars of the table; each of them lasts for a millisecond. -/
def oneAndTwo : List (Bar Float) := [⟨1, 1, 2, 4, 1, 3, 10⟩, ⟨2, 2, 3, 5, 2, 4, 20⟩]

theorem twoBarsText_holds : twoBars.HeldBy twoBarsText := ⟨by cbv, by cbv⟩

theorem twoBars_lists : twoBars.Lists oneAndTwo where
  needed := by decide
  rows := by
    have hcolumns : Table.columns twoBars.header = .ok ⟨0, none, 1, 2, 3, 4, 5⟩ := rfl
    have hbars : Table.bars ⟨0, none, 1, 2, 3, 4, 5⟩ twoBars.header.length
        (twoBars.rows.map (⟨·, 0, 0, 0⟩)) = .ok oneAndTwo := by
      decide +kernel
    exact (Table.bars_ok_iff hcolumns).1 hbars

theorem twoBars_arranged : twoBars.arranged oneAndTwo = oneAndTwo := by
  have hascending : oneAndTwo.Pairwise (·.openTime < ·.openTime) := by decide
  rw [Table.Sheet.arranged, Market.sorted_eq_self hascending]
  rfl

theorem twoBarsText_read : Table.read twoBarsText = .ok oneAndTwo :=
  (Table.read_ok_iff twoBarsText_holds).2 ⟨oneAndTwo, twoBars_lists, twoBars_arranged⟩

/-- The same table with its rows in the other order, and with the volumes first. -/
def movedBars : Table.Sheet where
  header := ["volume", "open_time", "open", "high", "low", "close"]
  rows := [["20", "2", "3", "5", "2", "4"], ["10", "1", "2", "4", "1", "3"]]

def movedBarsText : String := "volume,open_time,open,high,low,close\n20,2,3,5,2,4\n10,1,2,4,1,3\n"

theorem movedBarsText_holds : movedBars.HeldBy movedBarsText := ⟨by cbv, by cbv⟩

theorem twoBars_moved : Relation.ReflTransGen Table.Relaid twoBars movedBars := by
  have hrows : Table.Relaid twoBars ⟨twoBars.header, twoBars.rows.reverse⟩ :=
    .rows (List.reverse_perm _)
  have horder : [5, 0, 1, 2, 3, 4].Perm (List.range twoBars.header.length) := by decide
  have hcolumns : Table.Relaid ⟨twoBars.header, twoBars.rows.reverse⟩ movedBars := .columns horder
  exact .tail (.single hrows) hcolumns

/-- A tree with a table of the series that is asked for. -/
def oneTable (text : String) : FileTree := ⟨[(["X_1d.csv"], .text text)]⟩

/-- The newest bar from the first millisecond on. -/
def newestOne : Request := ⟨"X", "1d", some 1, some ⟨0, 1000000⟩, none⟩

theorem fetch_layout_moved :
    twoBars.Lists oneAndTwo ∧ (twoBars.header.map Table.plainName).Nodup ∧
      oneAndTwo.Pairwise (·.openTime ≠ ·.openTime) ∧
      Relation.ReflTransGen Table.Relaid twoBars movedBars ∧
      twoBars.HeldBy twoBarsText ∧ movedBars.HeldBy movedBarsText ∧
      ((⟨""⟩ : Folder).fetch newestOne : StateM FileTree (Except Failure (List (Bar Float)))).run
        (oneTable movedBarsText) = (.ok [⟨2, 2, 3, 5, 2, 4, 20⟩], oneTable movedBarsText) := by
  have hnames : (twoBars.header.map Table.plainName).Nodup := by decide
  have hdistinct : oneAndTwo.Pairwise (·.openTime ≠ ·.openTime) := by decide
  have hfile (text : String) : (oneTable text).readText
      ((⟨""⟩ : Folder).path newestOne.ticker newestOne.timeframe) = .ok text := readText_name text
  obtain ⟨answer, hanswer, hmoved, -⟩ := fetch_layout twoBars_lists hnames hdistinct twoBars_moved
    twoBarsText_holds movedBarsText_holds ⟨""⟩ newestOne (hfile twoBarsText) (hfile movedBarsText)
  rw [fetch_of_read (hfile twoBarsText) twoBarsText_read] at hanswer
  have hselect : newestOne.select oneAndTwo = answer := Except.ok.inj (Prod.mk.inj hanswer).1
  have hnewest : newestOne.select oneAndTwo = [⟨2, 2, 3, 5, 2, 4, 20⟩] := rfl
  rw [← hselect, hnewest] at hmoved
  exact ⟨twoBars_lists, hnames, hdistinct, twoBars_moved, twoBarsText_holds, movedBarsText_holds,
    hmoved⟩

/-- From one and a half milliseconds on. -/
def fromHalf : Request := ⟨"X", "1d", none, some ⟨0, 1500000⟩, none⟩

/-- A bar that opened half a millisecond before the first instant is in the answer. -/
theorem fetch_before_first :
    Instant.read? "1970-01-01T00:00:00.0015Z" = fromHalf.first ∧
      ((⟨""⟩ : Folder).fetch fromHalf : StateM FileTree (Except Failure (List (Bar Float)))).run
        (oneTable twoBarsText) = (.ok oneAndTwo, oneTable twoBarsText) ∧
      ∃ b ∈ oneAndTwo, ∃ first ∈ fromHalf.first,
        (Instant.ofMillis b.openTime).isBefore first = true := by
  have hfile : (oneTable twoBarsText).readText
      ((⟨""⟩ : Folder).path fromHalf.ticker fromHalf.timeframe) = .ok twoBarsText :=
    readText_name twoBarsText
  have hselect : fromHalf.select oneAndTwo = oneAndTwo := rfl
  have hfetch := fetch_of_read hfile twoBarsText_read
  rw [hselect] at hfetch
  have hearly : (Instant.ofMillis 1).isBefore ⟨0, 1500000⟩ = true := by decide
  exact ⟨by decide, hfetch, _, List.mem_cons_self, _, rfl, hearly⟩

end Folder

end BarScript
