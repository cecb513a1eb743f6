import Mathlib.Data.List.Nodup
import BarScript.Proofs.Visit

/-!
# Columns as a function of the outputs

The results of a run are a function of the outputs that were taken in, `Results.tabulate`: one row
for every output, one column for every name in the order in which the names came up, and in a
column the entries of the outputs (`StepOutput.entry`).

* `Results.setField_table`, `Results.fold_setField`: setting the fields of an output one after the
  other, where a late name is filled up from above and a repeated one replaces its entry, gives
  every column the last field of its name.
* `Results.push_tabulate`: from the outputs so far to those with one more, for an output of their
  shape; `Results.push_rejected`: any other output is not taken in.
* `Results.pushAll_tabulate`: any sequence of outputs, of which those of the first one's shape are
  taken in; `Results.pushAll_holds` reads the rows, the names and the entries off it.
-/

namespace BarScript

variable {α : Type}

/-! ## What an output says -/

namespace StepOutput

/-- Whether the values of an output have names. -/
def isNamed : StepOutput α → Bool
  | scalar _ => false
  | named _ => true

/-- The names of the fields. -/
def keys : StepOutput α → List String
  | scalar _ => []
  | named fields => fields.map (·.1)

end StepOutput

variable [Arith α]

/-- A number, or the newest element of a series; unavailable for a series without elements. -/
def Value.newest : Value α → α
  | number x => x
  | series s => s.newestFirst.headD Arith.nan

theorem Value.current_eq_newest (v : Value α) : v.current = v.newest := by
  cases v with
  | number x => rfl
  | series s =>
    simp [current, newest, Series.current?, Series.newestFirst, Series.toList,
      List.headD_eq_head?_getD]

namespace StepOutput

/-- The single value of an output. -/
def value : StepOutput α → α
  | scalar v => v.newest
  | named _ => Arith.nan

/-- The value of the last of some fields that has a name. -/
def last? (fields : List (String × Value α)) (name : String) : Option α :=
  (fields.reverse.find? (·.1 == name)).map (·.2.newest)

/-- The value of the last field of a name, unavailable if there is none. -/
def entry (output : StepOutput α) (name : String) : α :=
  match output with
  | scalar _ => Arith.nan
  | named fields => (last? fields name).getD Arith.nan

@[simp] theorem last?_nil (name : String) :
    last? ([] : List (String × Value α)) name = none := rfl

theorem last?_append_singleton (fields : List (String × Value α)) (f : String × Value α)
    (name : String) :
    last? (fields ++ [f]) name = if f.1 = name then some f.2.newest else last? fields name := by
  by_cases h : f.1 = name <;> simp [last?, h]

theorem last?_of_not_mem {fields : List (String × Value α)} {name : String}
    (h : name ∉ fields.map (·.1)) : last? fields name = none := by
  have hfind : fields.reverse.find? (·.1 == name) = none := by
    rw [List.find?_eq_none]
    intro f hf hname
    exact h (List.mem_map.2 ⟨f, List.mem_reverse.1 hf, by simpa using hname⟩)
  simp [last?, hfind]

theorem last?_of_mem {fields : List (String × Value α)} (hkeys : (fields.map (·.1)).Nodup)
    {f : String × Value α} (hf : f ∈ fields) : last? fields f.1 = some f.2.newest := by
  cases hfind : fields.reverse.find? (·.1 == f.1) with
  | none =>
    rw [List.find?_eq_none] at hfind
    exact absurd (beq_self_eq_true f.1) (hfind f (List.mem_reverse.2 hf))
  | some g =>
    have hg : g ∈ fields := List.mem_reverse.1 (List.mem_of_find?_eq_some hfind)
    have hkey : g.1 = f.1 := by simpa using List.find?_some hfind
    obtain rfl := List.inj_on_of_nodup_map hkeys hg hf hkey
    rw [last?, hfind]
    rfl

theorem entry_of_not_mem {output : StepOutput α} {name : String} (h : name ∉ output.keys) :
    output.entry name = Arith.nan := by
  cases output with
  | scalar v => rfl
  | named fields => simp [entry, last?_of_not_mem h]

end StepOutput

/-! ## Names in the order of their first appearance -/

theorem nodup_eraseDups (names : List String) : names.eraseDups.Nodup := by
  cases names with
  | nil => simp
  | cons n rest =>
    rw [List.eraseDups_cons, List.nodup_cons]
    refine ⟨?_, nodup_eraseDups (rest.filter fun m => !m == n)⟩
    simp [List.mem_eraseDups]
termination_by names.length
decreasing_by exact Nat.lt_succ_of_le (List.length_filter_le _ _)

theorem eraseDups_append_singleton (names : List String) (n : String) :
    (names ++ [n]).eraseDups =
      if n ∈ names then names.eraseDups else names.eraseDups ++ [n] := by
  rw [List.eraseDups_append]
  by_cases h : n ∈ names <;> simp [List.removeAll, h, List.eraseDups_cons]

namespace Results

/-- The columns that a function gives for names. -/
def table (names : List String) (column : String → List α) : List (String × Array α) :=
  names.map fun name => (name, (column name).toArray)

omit [Arith α] in
theorem table_congr {names : List String} {f g : String → List α}
    (h : ∀ name ∈ names, f name = g name) : table names f = table names g :=
  List.map_congr_left fun name hname => by rw [h name hname]

/-- The results that hold some outputs, which have one shape. -/
def tabulate (outputs : List (StepOutput α)) : Results α :=
  ⟨outputs.length,
    match outputs with
    | [] => .none
    | .scalar _ :: _ => .scalar (outputs.map (·.value)).toArray
    | .named _ :: _ =>
      .named (table (outputs.flatMap (·.keys)).eraseDups fun name => outputs.map (·.entry name))⟩

/-! ## The fields of one output -/

/-- **One field**: an entry of its column is set, or a column is started for it. The column of the
name may have the entry of this row already, which goes. -/
theorem setField_table {rows : Nat} {names : List String} (hnames : names.Nodup) (name : String)
    (x : α) {column : String → List α} (before : List α)
    (hold : name ∈ names → (column name).take rows = before)
    (hnew : name ∉ names → before = List.replicate rows Arith.nan) :
    setField rows name x (table names column) =
      table (if name ∈ names then names else names ++ [name])
        (fun n => if n = name then before ++ [x] else column n) := by
  induction names with
  | nil =>
    have hcolumn : (Array.replicate rows Arith.nan).push x = (before ++ [x]).toArray := by
      rw [hnew (by simp)]
      exact Array.ext' (by simp)
    simp [table, setField, hcolumn]
  | cons n rest ih =>
    obtain ⟨hn, hrest⟩ := List.nodup_cons.1 hnames
    rw [table, List.map_cons, setField]
    by_cases h : n = name
    · subst h
      have hother : table rest column =
          table rest fun m => if m = n then before ++ [x] else column m :=
        table_congr fun m hm => by
          have hne : m ≠ n := fun heq => hn (heq ▸ hm)
          rw [if_neg hne]
      have hcut : (if (column n).toArray.size > rows then (column n).toArray.take rows
          else (column n).toArray) = before.toArray := by
        rw [← hold (.head _)]
        by_cases hsize : (column n).length > rows
        · simp [hsize]
        · simp [hsize, List.take_of_length_le (Nat.le_of_not_lt hsize)]
      have hcolumn : before.toArray.push x = (before ++ [x]).toArray := by simp
      rw [if_pos rfl, hcut, if_pos (.head _), table, List.map_cons, if_pos rfl, ← hcolumn]
      exact congrArg _ hother
    · have ih := ih hrest (fun hm => hold (.tail _ hm)) fun hm => hnew (by simp [Ne.symm h, hm])
      rw [if_neg h]
      have hsplit : (if name ∈ n :: rest then n :: rest else n :: rest ++ [name]) =
          n :: if name ∈ rest then rest else rest ++ [name] := by
        by_cases hm : name ∈ rest <;> simp [hm, Ne.symm h]
      rw [hsplit]
      simpa [table, h] using ih

/-- **The fields of an output**, set in columns that have `rows` entries each: every column gets
the last field of its name, if there is one. -/
theorem fold_setField {rows : Nat} {seen : List String} {before : String → List α}
    (hlength : ∀ name, (before name).length = rows)
    (hunseen : ∀ name ∉ seen, before name = List.replicate rows Arith.nan)
    (fields : List (String × Value α)) :
    fields.foldl (fun cols f => setField rows f.1 f.2.current cols)
        (table seen.eraseDups before) =
      table (seen ++ fields.map (·.1)).eraseDups
        fun name => before name ++ (StepOutput.last? fields name).toList := by
  induction h : fields.length generalizing fields with
  | zero =>
    obtain rfl := List.length_eq_zero_iff.1 h
    simp
  | succ n ih =>
    obtain ⟨init, f, rfl⟩ : ∃ init f, fields = init ++ [f] :=
      ⟨fields.dropLast, fields.getLast (by rintro rfl; simp at h),
        (List.dropLast_append_getLast _).symm⟩
    rw [List.foldl_append, ih init (by simpa using h), List.foldl_cons, List.foldl_nil,
      setField_table (nodup_eraseDups _) f.1 f.2.current (before f.1)
        (fun _ => by simp [← hlength f.1])
        (fun hnot => hunseen f.1 fun hseen => hnot (by simp [List.mem_eraseDups, hseen])),
      List.map_append, List.map_singleton, ← List.append_assoc, eraseDups_append_singleton]
    simp only [List.mem_eraseDups]
    refine table_congr fun name _ => ?_
    rw [StepOutput.last?_append_singleton, Value.current_eq_newest]
    by_cases hname : name = f.1
    · subst hname; simp
    · simp [hname, Ne.symm hname]

/-- The named values of a bar extend every column by its entry. -/
theorem pushNamed_table {rows : Nat} {seen : List String} {before : String → List α}
    (hlength : ∀ name, (before name).length = rows)
    (hunseen : ∀ name ∉ seen, before name = List.replicate rows Arith.nan)
    (fields : List (String × Value α)) :
    pushNamed rows (table seen.eraseDups before) fields =
      table (seen ++ fields.map (·.1)).eraseDups
        fun name => before name ++ [(StepOutput.named fields).entry name] := by
  unfold pushNamed
  rw [fold_setField hlength hunseen, table, List.map_map]
  refine List.map_congr_left fun name _ => ?_
  have hl := hlength name
  unfold StepOutput.entry
  rw [Function.comp_apply]
  cases hlast : StepOutput.last? fields name with
  | none => simp [filled, hl, hlast]
  | some x => simp [filled, hl, hlast]

/-! ## One output more -/

/-- **An output of the shape of those before it is taken in.** -/
theorem push_tabulate {outputs : List (StepOutput α)} {output : StepOutput α}
    (h : ∀ o ∈ outputs, o.isNamed = output.isNamed) (bar : Nat) :
    (tabulate outputs).push bar output = .ok (tabulate (outputs ++ [output])) := by
  cases output with
  | scalar v =>
    cases outputs with
    | nil => simp [tabulate, push, StepOutput.value, Value.current_eq_newest]
    | cons first rest =>
      cases first with
      | named fields => exact absurd (h _ (.head _)) (by simp [StepOutput.isNamed])
      | scalar w => simp [tabulate, push, StepOutput.value, Value.current_eq_newest]
  | named fields =>
    have hunseen : ∀ name ∉ outputs.flatMap (·.keys),
        outputs.map (·.entry name) = List.replicate outputs.length Arith.nan := by
      intro name hname
      rw [List.eq_replicate_iff]
      refine ⟨by simp, fun x hx => ?_⟩
      obtain ⟨o, ho, rfl⟩ := List.mem_map.1 hx
      exact StepOutput.entry_of_not_mem fun hkey => hname (List.mem_flatMap.2 ⟨o, ho, hkey⟩)
    have hpush := pushNamed_table (fun _ => by simp) hunseen fields
    cases outputs with
    | nil =>
      simp only [tabulate, push]
      simpa [table, StepOutput.keys] using hpush
    | cons first rest =>
      cases first with
      | scalar v => exact absurd (h _ (.head _)) (by simp [StepOutput.isNamed])
      | named old =>
        simp only [tabulate, push, hpush]
        simp [StepOutput.keys]

/-- An output of another shape than the first is not taken in. -/
theorem push_rejected {first : StepOutput α} {rest : List (StepOutput α)} {output : StepOutput α}
    (h : output.isNamed ≠ first.isNamed) (bar : Nat) :
    (tabulate (first :: rest)).push bar output = .error (.resultShape bar) := by
  cases first <;> cases output <;> first | rfl | exact absurd rfl h

/-- A push fails for the shape of the output only. -/
theorem push_failure {r : Results α} {bar : Nat} {output : StepOutput α} {failure : Failure}
    (h : r.push bar output = .error failure) : failure = .resultShape bar := by
  unfold push at h
  split at h
  all_goals cases h
  rfl

/-! ## Sequences of outputs -/

/-- Pushes outputs at their bars, one after the other; one that is rejected leaves the results as
they are. Gives the outputs that were taken in, and the results. -/
def pushAll (r : Results α) : List (Nat × StepOutput α) → List (StepOutput α) × Results α
  | [] => ([], r)
  | (bar, output) :: rest =>
    match r.push bar output with
    | .ok r' => (output :: (r'.pushAll rest).1, (r'.pushAll rest).2)
    | .error _ => r.pushAll rest

theorem pushAll_ok {r r' : Results α} {bar : Nat} {output : StepOutput α}
    (h : r.push bar output = .ok r') (rest : List (Nat × StepOutput α)) :
    r.pushAll ((bar, output) :: rest) =
      (output :: (r'.pushAll rest).1, (r'.pushAll rest).2) := by
  simp [pushAll, h]

theorem pushAll_error {r : Results α} {bar : Nat} {output : StepOutput α} {failure : Failure}
    (h : r.push bar output = .error failure) (rest : List (Nat × StepOutput α)) :
    r.pushAll ((bar, output) :: rest) = r.pushAll rest := by
  simp [pushAll, h]

omit [Arith α] in
/-- The outputs that have the shape of the first one. -/
def ofFirstShape : List (StepOutput α) → List (StepOutput α)
  | [] => []
  | first :: rest => first :: rest.filter (·.isNamed == first.isNamed)

theorem pushAll_cons_tabulate {first : StepOutput α} {rest : List (StepOutput α)}
    (h : ∀ o ∈ rest, o.isNamed = first.isNamed) (pushes : List (Nat × StepOutput α)) :
    (tabulate (first :: rest)).pushAll pushes =
      ((pushes.map (·.2)).filter (·.isNamed == first.isNamed),
        tabulate (first :: (rest ++ (pushes.map (·.2)).filter (·.isNamed == first.isNamed)))) := by
  induction pushes generalizing rest with
  | nil => simp [pushAll]
  | cons push pushes ih =>
    obtain ⟨bar, output⟩ := push
    by_cases hshape : output.isNamed = first.isNamed
    · have hbefore : ∀ o ∈ first :: rest, o.isNamed = output.isNamed :=
        List.forall_mem_cons.2 ⟨hshape.symm, fun o ho => (h o ho).trans hshape.symm⟩
      have hafter : ∀ o ∈ rest ++ [output], o.isNamed = first.isNamed :=
        List.forall_mem_append.2 ⟨h, List.forall_mem_singleton.2 hshape⟩
      rw [pushAll_ok (push_tabulate hbefore bar), List.cons_append, ih hafter]
      simp [hshape]
    · rw [pushAll_error (push_rejected hshape bar), ih h]
      simp [hshape]

/-- **Any sequence of outputs**: those of the first one's shape are taken in, and the results are
those that hold them. -/
theorem pushAll_tabulate (pushes : List (Nat × StepOutput α)) :
    empty.pushAll pushes =
      (ofFirstShape (pushes.map (·.2)), tabulate (ofFirstShape (pushes.map (·.2)))) := by
  cases pushes with
  | nil => rfl
  | cons push pushes =>
    obtain ⟨bar, first⟩ := push
    have hbefore : ∀ o ∈ ([] : List (StepOutput α)), o.isNamed = first.isNamed := by simp
    have hpush : (empty : Results α).push bar first = .ok (tabulate [first]) :=
      push_tabulate hbefore bar
    rw [pushAll_ok hpush, pushAll_cons_tabulate (by simp)]
    simp [ofFirstShape]

/-! ## What the results say of the outputs -/

/-- Results that hold outputs: one row for each of them, and in every column its entry in each. -/
structure Holds (r : Results α) (outputs : List (StepOutput α)) : Prop where
  rows : r.rows = outputs.length
  none : r.columns = .none ↔ outputs = []
  scalar : ∀ values, r.columns = .scalar values →
    (∀ o ∈ outputs, o.isNamed = false) ∧ values.size = r.rows ∧
      ∀ (i : Nat) (h : i < outputs.length), values[i]? = some outputs[i].value
  named : ∀ columns, r.columns = .named columns →
    (∀ o ∈ outputs, o.isNamed = true) ∧ (columns.map (·.1)).Nodup ∧
      columns.map (·.1) = (outputs.flatMap (·.keys)).eraseDups ∧
        ∀ c ∈ columns, c.2.size = r.rows ∧
          ∀ (i : Nat) (h : i < outputs.length), c.2[i]? = some (outputs[i].entry c.1)

theorem tabulate_holds {outputs : List (StepOutput α)} {shape : Bool}
    (h : ∀ o ∈ outputs, o.isNamed = shape) : (tabulate outputs).Holds outputs := by
  cases outputs with
  | nil => exact ⟨rfl, by simp [tabulate], by simp [tabulate], by simp [tabulate]⟩
  | cons first rest =>
    have hfirst := h first (.head _)
    cases first with
    | scalar v =>
      refine ⟨rfl, by simp [tabulate], fun values hvalues => ?_, by simp [tabulate]⟩
      obtain rfl : (List.map (·.value) (.scalar v :: rest)).toArray = values := by
        simpa [tabulate] using hvalues
      refine ⟨fun o ho => (h o ho).trans hfirst.symm, by simp [tabulate], fun i hi => ?_⟩
      rw [List.getElem?_toArray, List.getElem?_map, List.getElem?_eq_getElem hi]
      rfl
    | named fields =>
      refine ⟨rfl, by simp [tabulate], by simp [tabulate], fun columns hcolumns => ?_⟩
      obtain rfl : table ((StepOutput.named fields :: rest).flatMap (·.keys)).eraseDups
          (fun name => (StepOutput.named fields :: rest).map (·.entry name)) = columns := by
        simpa [tabulate] using hcolumns
      have hnames : ∀ (names : List String) (column : String → List α),
          (table names column).map (·.1) = names := fun names column => by
        simp [table, Function.comp_def]
      rw [hnames]
      refine ⟨fun o ho => (h o ho).trans hfirst.symm, nodup_eraseDups _, rfl, fun c hc => ?_⟩
      obtain ⟨name, -, rfl⟩ := List.mem_map.1 hc
      refine ⟨by simp [tabulate], fun i hi => ?_⟩
      rw [List.getElem?_toArray, List.getElem?_map, List.getElem?_eq_getElem hi]
      rfl

theorem empty_holds : (empty : Results α).Holds [] :=
  have hnone : ∀ o ∈ ([] : List (StepOutput α)), o.isNamed = true := List.forall_mem_nil _
  tabulate_holds hnone

omit [Arith α] in
theorem ofFirstShape_isNamed (outputs : List (StepOutput α)) :
    ∃ shape, ∀ o ∈ ofFirstShape outputs, o.isNamed = shape := by
  cases outputs with
  | nil => exact ⟨true, by simp [ofFirstShape]⟩
  | cons first rest =>
    refine ⟨first.isNamed, fun o ho => ?_⟩
    rcases List.mem_cons.1 ho with rfl | ho
    · rfl
    · simpa using (List.mem_filter.1 ho).2

/-- The outputs that results take in are those of the shape of the outputs they hold. -/
theorem push_tabulate_iff {outputs : List (StepOutput α)} {shape : Bool}
    (h : ∀ o ∈ outputs, o.isNamed = shape) (bar : Nat) (output : StepOutput α) :
    (∃ r, (tabulate outputs).push bar output = .ok r) ↔
      ∀ first ∈ outputs.head?, output.isNamed = first.isNamed := by
  cases outputs with
  | nil => exact ⟨fun _ => by simp, fun _ => ⟨_, push_tabulate (by simp) bar⟩⟩
  | cons first rest =>
    by_cases hshape : output.isNamed = first.isNamed
    · refine ⟨fun _ => by simpa using hshape, fun _ => ⟨_, push_tabulate (fun o ho => ?_) bar⟩⟩
      rw [h o ho, hshape, h first (.head _)]
    · simp [push_rejected hshape, hshape]

/-- The outputs that results hold have one shape. -/
theorem Holds.isNamed {r : Results α} {outputs : List (StepOutput α)} (h : r.Holds outputs) :
    ∃ shape, ∀ o ∈ outputs, o.isNamed = shape := by
  cases hcolumns : r.columns with
  | none => exact ⟨true, by simp [h.none.1 hcolumns]⟩
  | scalar values => exact ⟨false, (h.scalar values hcolumns).1⟩
  | named columns => exact ⟨true, (h.named columns hcolumns).1⟩

omit [Arith α] in
/-- An array is the list of the entries that are read in it. -/
theorem eq_toArray_map {β : Type} {values : Array α} {items : List β} {f : β → α}
    (hsize : values.size = items.length)
    (hget : ∀ (i : Nat) (h : i < items.length), values[i]? = some (f items[i])) :
    values = (items.map f).toArray := by
  refine Array.ext (by simp [hsize]) fun i hi _ => ?_
  have hentry := hget i (hsize ▸ hi)
  rw [Array.getElem?_eq_getElem hi, Option.some.injEq] at hentry
  simpa using hentry

theorem Holds.eq_tabulate {r : Results α} {outputs : List (StepOutput α)} (h : r.Holds outputs) :
    r = tabulate outputs := by
  obtain ⟨rows, columns⟩ := r
  obtain rfl : rows = outputs.length := h.rows
  cases outputs with
  | nil =>
    obtain rfl : columns = .none := h.none.2 rfl
    rfl
  | cons first rest =>
    cases columns with
    | none => exact absurd (h.none.1 rfl) (by simp)
    | scalar values =>
      obtain ⟨hshape, hsize, hget⟩ := h.scalar values rfl
      cases first with
      | named fields => exact absurd (hshape _ (.head _)) (by simp [StepOutput.isNamed])
      | scalar v => rw [eq_toArray_map hsize hget]; rfl
    | named columns =>
      obtain ⟨hshape, -, hnames, hentries⟩ := h.named columns rfl
      cases first with
      | scalar v => exact absurd (hshape _ (.head _)) (by simp [StepOutput.isNamed])
      | named fields =>
        have hcolumns : columns = table (columns.map (·.1)) fun name =>
            (StepOutput.named fields :: rest).map (·.entry name) := by
          rw [table, List.map_map]
          refine (List.map_id columns).symm.trans (List.map_congr_left fun c hc => ?_)
          obtain ⟨hsize, hget⟩ := hentries c hc
          exact Prod.ext rfl (eq_toArray_map hsize hget)
        rw [hcolumns, hnames]
        rfl

/-- Results that take in an output hold it, after those they held before. -/
theorem Holds.push {r r' : Results α} {outputs : List (StepOutput α)} {bar : Nat}
    {output : StepOutput α} (h : r.Holds outputs) (hpush : r.push bar output = .ok r') :
    r'.Holds (outputs ++ [output]) := by
  obtain ⟨shape, hshape⟩ := h.isNamed
  obtain rfl := h.eq_tabulate
  have hfirst := (push_tabulate_iff hshape bar output).1 ⟨r', hpush⟩
  have hold : ∀ o ∈ outputs, o.isNamed = output.isNamed := fun o ho => by
    cases outputs with
    | nil => cases ho
    | cons first rest => rw [hfirst first rfl, hshape o ho, hshape first (.head _)]
  have hsame : ∀ o ∈ outputs ++ [output], o.isNamed = output.isNamed :=
    List.forall_mem_append.2 ⟨hold, List.forall_mem_singleton.2 rfl⟩
  rw [push_tabulate hold bar, Except.ok.injEq] at hpush
  exact hpush ▸ tabulate_holds hsame

/-- **The columns of a run.** Outputs of any kind are pushed in any order, and some are rejected.
What is rejected is what differs in shape from the first output that was taken in; it changes
neither the results nor the context that collects them. The results hold the outputs that were
taken in: as many rows, the names in the order of their first appearance, and in every column the
last field of its name in each output. -/
theorem pushAll_holds (pushes : List (Nat × StepOutput α)) :
    let taken := (empty.pushAll pushes).1
    let r := (empty.pushAll pushes).2
    r.Holds taken ∧ taken = ofFirstShape (pushes.map (·.2)) ∧
      ∀ bar output,
        ((∃ r', r.push bar output = .ok r') ↔
          ∀ first ∈ taken.head?, output.isNamed = first.isNamed) ∧
        ∀ failure, r.push bar output = .error failure →
          failure = .resultShape bar ∧
          (∀ rest, r.pushAll ((bar, output) :: rest) = r.pushAll rest) ∧
          ∀ {σ : Type} (ctx : Context α) (own : σ), ctx.results = r → ctx.bar = bar →
            Engine.collect output (ctx, own) = .error failure (ctx, own) := by
  obtain ⟨shape, hshape⟩ := ofFirstShape_isNamed (pushes.map (·.2))
  rw [pushAll_tabulate]
  refine ⟨tabulate_holds hshape, rfl, fun bar output =>
    ⟨push_tabulate_iff hshape bar output, fun failure hfailure => ⟨?_, pushAll_error hfailure, ?_⟩⟩⟩
  · exact push_failure hfailure
  · rintro σ ctx own hresults rfl
    exact Engine.collect_error (hresults ▸ hfailure)

end Results

end BarScript
