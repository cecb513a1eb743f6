import Mathlib
import BarScript.Proofs.Rows

/-!
# The layout of a table

Rows and columns may come in any order, names may be written with other letters and blanks, and
there may be columns that are not used (`Table.Relaid`). If no name that is used occurs twice, then
each such change keeps the cell of every row under every name that is used (`Table.SameCells`), so
the table lists the same bars, in some order (`Table.Relaid.lists`); and so does a run of changes
(`Table.lists_of_relaid`).
-/

namespace BarScript

namespace Table

/-! ## Names -/

/-- A name as names are compared: in small letters, and without the blanks around it. -/
def plainName (header : String) : List Char := (Text.trimmed header.toList).map Char.toLower

/-- No name that is used occurs twice. -/
def Unambiguous (header : List String) : Prop :=
  ∀ name ∈ usedNames, header.countP (isNamed name) ≤ 1

theorem unambiguous_of_nodup {header : List String} (h : (header.map plainName).Nodup) :
    Unambiguous header := by
  intro name _
  have hcount := List.nodup_iff_count_le_one.1 h name.toList
  rwa [List.count, List.countP_map] at hcount

/-- Headers with the same used names. -/
def SameNames (header header' : List String) : Prop :=
  ∀ name ∈ usedNames, header'.countP (isNamed name) = header.countP (isNamed name)

section

variable {header header' row row' : List String} {name : String} {α : Type} [Arith α]

theorem SameNames.unambiguous (h : SameNames header header') (hheader : Unambiguous header) :
    Unambiguous header' := fun name hname => (h name hname).trans_le (hheader name hname)

theorem SameNames.hasColumn (h : SameNames header header') (hname : name ∈ usedNames) :
    hasColumn header' name = hasColumn header name := by
  rw [Bool.eq_iff_iff, Table.hasColumn, Table.hasColumn, List.any_eq_true, List.any_eq_true,
    ← List.countP_pos_iff, ← List.countP_pos_iff, h name hname]

/-! ## Cells -/

/-- Rows with the same cells under the names that are used. -/
structure SameCells (header row header' row' : List String) : Prop where
  width : row'.length = header'.length
  cells : ∀ name ∈ usedNames, cell? header' row' name = cell? header row name

theorem Spells.of_same {b : Bar α} (h : Spells header row b) (hnames : SameNames header header')
    (hcells : SameCells header row header' row') : Spells header' row' b where
  width := hcells.width
  openTime := hcells.cells "open_time" (by decide) ▸ h.openTime
  closeTime := by
    rw [hnames.hasColumn (by decide), hcells.cells _ (by decide)]
    exact h.closeTime
  opening := hcells.cells "open" (by decide) ▸ h.opening
  high := hcells.cells "high" (by decide) ▸ h.high
  low := hcells.cells "low" (by decide) ▸ h.low
  close := hcells.cells "close" (by decide) ▸ h.close
  volume := hcells.cells "volume" (by decide) ▸ h.volume

/-- What is found does not depend on the order, if there is only one thing to find. -/
theorem find?_eq_of_perm {β : Type} {p : β → Bool} {xs ys : List β} (hperm : xs.Perm ys)
    (hone : xs.countP p ≤ 1) : xs.find? p = ys.find? p := by
  have hfilter : (xs.filter p).Perm (ys.filter p) := hperm.filter p
  rw [← List.head?_filter, ← List.head?_filter]
  rw [List.countP_eq_length_filter] at hone
  generalize xs.filter p = found at hfilter hone ⊢
  match found, hone with
  | [], _ => rw [List.nil_perm.1 hfilter]
  | [x], _ => rw [List.singleton_perm.1 hfilter]

theorem countP_zip (hwidth : row.length = header.length) :
    (header.zip row).countP (fun p => isNamed name p.1) = header.countP (isNamed name) := by
  have hfst := List.map_fst_zip hwidth.ge
  conv_rhs => rw [← hfst, List.countP_map]
  rfl

theorem cell?_of_perm (hname : name ∈ usedNames) (hheader : Unambiguous header)
    (hwidth : row.length = header.length) (hperm : (header.zip row).Perm (header'.zip row')) :
    cell? header' row' name = cell? header row name := by
  rw [cell?, cell?, find?_eq_of_perm hperm]
  rw [countP_zip hwidth]
  exact hheader name hname

end

/-! ## Layouts -/

/-- Columns in another order. -/
def reordered (order : List Nat) (xs : List String) : List String := order.map fun i => xs.getD i ""

/-- One change of the layout of a sheet. -/
inductive Relaid : Sheet → Sheet → Prop
  /-- The rows come in another order. -/
  | rows {header rows rows'} (hrows : rows'.Perm rows) : Relaid ⟨header, rows⟩ ⟨header, rows'⟩
  /-- The columns come in another order, in the header as in all rows. -/
  | columns {header rows order} (horder : order.Perm (List.range header.length)) :
    Relaid ⟨header, rows⟩ ⟨reordered order header, rows.map (reordered order)⟩
  /-- Names are written with other letters or blanks. -/
  | names {header header' rows} (hnames : header'.map plainName = header.map plainName) :
    Relaid ⟨header, rows⟩ ⟨header', rows⟩
  /-- A column comes in that is not used. -/
  | unused {header rows cells} {k : Nat} {name : String} (hk : k ≤ header.length)
    (hname : ∀ used ∈ usedNames, isNamed used name = false) (hcells : cells.length = rows.length) :
    Relaid ⟨header, rows⟩ ⟨header.insertIdx k name, List.zipWith (·.insertIdx k ·) rows cells⟩

section

variable {header row : List String} {order : List Nat}

/-! ### Other orders of the columns -/

@[simp] theorem length_reordered (xs : List String) : (reordered order xs).length = order.length :=
  List.length_map _

theorem reordered_perm {xs : List String} (horder : order.Perm (List.range xs.length)) :
    (reordered order xs).Perm xs := by
  have hall : (List.range xs.length).map (fun i => xs.getD i "") = xs := by
    refine List.ext_getElem (by simp) fun i _ hi => ?_
    rw [List.getElem_map, List.getElem_range, List.getD_eq_getElem _ _ hi]
  exact (horder.map _).trans (.of_eq hall)

theorem zip_reordered_perm (hwidth : row.length = header.length)
    (horder : order.Perm (List.range header.length)) :
    ((reordered order header).zip (reordered order row)).Perm (header.zip row) := by
  have hall : (List.range header.length).map (fun i => (header.getD i "", row.getD i "")) =
      header.zip row := by
    refine List.ext_getElem (by simp [hwidth]) fun i hi _ => ?_
    have hi : i < header.length := by simpa using hi
    rw [List.getElem_map, List.getElem_range, List.getElem_zip, List.getD_eq_getElem _ _ hi,
      List.getD_eq_getElem _ _ (hwidth ▸ hi)]
  rw [reordered, reordered, List.zip_map', ← hall]
  exact horder.map _

theorem sameNames_reordered (horder : order.Perm (List.range header.length)) :
    SameNames header (reordered order header) :=
  fun _ _ => (reordered_perm horder).countP_eq _

theorem sameCells_reordered (hheader : Unambiguous header) (hwidth : row.length = header.length)
    (horder : order.Perm (List.range header.length)) :
    SameCells header row (reordered order header) (reordered order row) where
  width := by rw [length_reordered, length_reordered]
  cells _ hname := cell?_of_perm hname hheader hwidth (zip_reordered_perm hwidth horder).symm

/-! ### Other spellings of the names -/

theorem cell?_eq_plain (header row : List String) (name : String) : cell? header row name =
    (((header.map plainName).zip row).find? fun p => p.1 == name.toList).map (·.2) := by
  rw [List.zip_map_left, List.find?_map, Option.map_map]
  rfl

theorem sameNames_of_plain {header' : List String}
    (hnames : header'.map plainName = header.map plainName) : SameNames header header' := by
  intro name _
  have hplain (header : List String) : header.countP (isNamed name) =
      (header.map plainName).countP (· == name.toList) := by
    rw [List.countP_map]
    rfl
  rw [hplain, hplain, hnames]

theorem sameCells_of_plain {header' : List String} (hwidth : row.length = header.length)
    (hnames : header'.map plainName = header.map plainName) : SameCells header row header' row where
  width := by
    have hlength := congrArg List.length hnames
    rw [List.length_map, List.length_map] at hlength
    rw [hwidth, hlength]
  cells name _ := by rw [cell?_eq_plain, cell?_eq_plain, hnames]

/-! ### Columns that are not used -/

theorem zip_insertIdx (hwidth : row.length = header.length) (k : Nat) (name cell : String) :
    (header.insertIdx k name).zip (row.insertIdx k cell) =
      (header.zip row).insertIdx k (name, cell) := by
  induction k generalizing header row with
  | zero => rfl
  | succ k ih =>
    cases header with
    | nil =>
      obtain rfl := List.length_eq_zero_iff.1 hwidth
      rfl
    | cons head header =>
      obtain ⟨first, row, rfl⟩ := List.exists_cons_of_length_eq_add_one hwidth
      exact congrArg ((head, first) :: ·) (ih (Nat.succ.inj hwidth))

theorem sameNames_insertIdx {k : Nat} {name : String} (hk : k ≤ header.length)
    (hname : ∀ used ∈ usedNames, isNamed used name = false) :
    SameNames header (header.insertIdx k name) := by
  intro used hused
  rw [(List.perm_insertIdx name header hk).countP_eq,
    List.countP_cons_of_neg (by simp [hname used hused])]

theorem sameCells_insertIdx {k : Nat} {name cell : String} (hheader : Unambiguous header)
    (hwidth : row.length = header.length) (hk : k ≤ header.length)
    (hname : ∀ used ∈ usedNames, isNamed used name = false) :
    SameCells header row (header.insertIdx k name) (row.insertIdx k cell) where
  width := by
    rw [List.length_insertIdx_of_le_length hk, List.length_insertIdx_of_le_length (hwidth ▸ hk),
      hwidth]
  cells used hused := by
    have hperm : ((name, cell) :: header.zip row).Perm
        ((header.insertIdx k name).zip (row.insertIdx k cell)) := by
      rw [zip_insertIdx hwidth]
      exact (List.perm_insertIdx _ _ (by simpa [hwidth] using hk)).symm
    have hnot : isNamed used name = false := hname used hused
    have hone : ((name, cell) :: header.zip row).countP (fun p => isNamed used p.1) ≤ 1 := by
      rw [List.countP_cons_of_neg (by simp [hnot]), countP_zip hwidth]
      exact hheader used hused
    rw [cell?, cell?, ← find?_eq_of_perm hperm hone, List.find?_cons_of_neg (by simp [hnot])]

end

/-! ### Runs of changes -/

variable {α : Type} [Arith α] {bs : List (Bar α)}

/-- Rows with the same cells spell the same bars. -/
theorem forall₂_spells_of_same {header header' : List String} (hnames : SameNames header header')
    {rows rows' : List (List String)} (hspells : List.Forall₂ (Spells header) rows bs)
    (hrows : List.Forall₂ (fun row row' => row.length = header.length →
      SameCells header row header' row') rows rows') :
    List.Forall₂ (Spells header') rows' bs := by
  induction hspells generalizing rows' with
  | nil =>
    rw [List.forall₂_nil_left_iff.1 hrows]
    exact .nil
  | cons hb _ ih =>
    obtain ⟨row', rest, hrow, hrest, rfl⟩ := List.forall₂_cons_left_iff.1 hrows
    exact .cons (hb.of_same hnames (hrow hb.width)) (ih hrest)

theorem Sheet.Lists.of_same {s s' : Sheet} (h : s.Lists bs) (hnames : SameNames s.header s'.header)
    (hrows : List.Forall₂ (fun row row' => row.length = s.header.length →
      SameCells s.header row s'.header row') s.rows s'.rows) : s'.Lists bs where
  needed name hname := by
    rw [hnames.hasColumn (List.mem_cons_of_mem _ hname)]
    exact h.needed name hname
  rows := forall₂_spells_of_same hnames h.rows hrows

theorem forall₂_zipWith {β γ δ : Type} {R : β → δ → Prop} {f : β → γ → δ}
    (h : ∀ x y, R x (f x y)) {xs : List β} {ys : List γ} (hlength : ys.length = xs.length) :
    List.Forall₂ R xs (List.zipWith f xs ys) := by
  induction xs generalizing ys with
  | nil => exact .nil
  | cons x xs ih =>
    obtain ⟨y, ys, rfl⟩ := List.exists_cons_of_length_eq_add_one hlength
    exact .cons (h x y) (ih (Nat.succ.inj hlength))

/-- One change keeps the bars that a sheet lists, in some order. -/
theorem Relaid.lists {s s' : Sheet} (h : Relaid s s') (hheader : Unambiguous s.header)
    (hlists : s.Lists bs) :
    SameNames s.header s'.header ∧ ∃ bs' : List (Bar α), bs'.Perm bs ∧ s'.Lists bs' := by
  cases h with
  | rows hrows =>
    obtain ⟨bs', hspells, hperm⟩ := List.perm_comp_forall₂ hrows hlists.rows
    exact ⟨fun _ _ => rfl, bs', hperm, hlists.needed, hspells⟩
  | columns horder =>
    refine ⟨sameNames_reordered horder, bs, .refl bs, ?_⟩
    refine hlists.of_same (sameNames_reordered horder) ?_
    refine List.forall₂_map_right_iff.2 (List.forall₂_same.2 fun row _ hwidth => ?_)
    exact sameCells_reordered hheader hwidth horder
  | names hnames =>
    refine ⟨sameNames_of_plain hnames, bs, .refl bs, ?_⟩
    refine hlists.of_same (sameNames_of_plain hnames) (List.forall₂_same.2 fun row _ hwidth => ?_)
    exact sameCells_of_plain hwidth hnames
  | unused hk hname hcells =>
    refine ⟨sameNames_insertIdx hk hname, bs, .refl bs, ?_⟩
    refine hlists.of_same (sameNames_insertIdx hk hname) (forall₂_zipWith ?_ hcells)
    exact fun row cell hwidth => sameCells_insertIdx hheader hwidth hk hname

/-- Changes of the layout, one after the other, keep the bars that a sheet lists. -/
theorem lists_of_relaid {s s' : Sheet} (h : Relation.ReflTransGen Relaid s s')
    (hheader : Unambiguous s.header) (hlists : s.Lists bs) :
    SameNames s.header s'.header ∧ ∃ bs' : List (Bar α), bs'.Perm bs ∧ s'.Lists bs' := by
  induction h with
  | refl => exact ⟨fun _ _ => rfl, bs, .refl bs, hlists⟩
  | tail _ hstep ih =>
    obtain ⟨hnames, bs', hperm, hlists'⟩ := ih
    obtain ⟨hnames', bs'', hperm', hlists''⟩ := hstep.lists (hnames.unambiguous hheader) hlists'
    exact ⟨fun name hname => (hnames' name hname).trans (hnames name hname), bs'',
      hperm'.trans hperm, hlists''⟩

end Table

end BarScript
