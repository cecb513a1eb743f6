import BarScript.Output.Sinks
import BarScript.Proofs.Columns

/-!
# Policies for titles

What becomes of a title that comes up again: plots, candles and bars append
(`Policy.appending`), fills keep the first (`Policy.firstWins`), levels take over the last
(`Policy.lastWins`). A policy comes with what an entry holds of the calls with its title, and
`Kept` says this of a whole list of entries. `Kept.enter` is the step: entering one more call keeps
it, whatever the policy.
-/

namespace BarScript

section

variable {μ σ : Type}

/-- How entries with titles are kept of calls `μ`: `Entry ms s` says what the entry `s` holds of the
calls `ms` with its title. -/
structure Policy (μ σ : Type) where
  key : μ → String
  title : σ → String
  /-- The entry of the first call with a title. -/
  new : μ → σ
  /-- What a later call makes of the entry. -/
  change : μ → σ → σ
  Entry : List μ → σ → Prop
  title_new : ∀ m, title (new m) = key m
  title_change : ∀ m s, title (change m s) = title s
  entry_new : ∀ m, Entry [m] (new m)
  entry_change : ∀ {ms s} m, Entry ms s → Entry (ms ++ [m]) (change m s)

namespace Policy

variable (P : Policy μ σ)

/-- Changes the entry of the call, or makes a new one at the end. -/
def enter (m : μ) : List σ → List σ
  | [] => [P.new m]
  | s :: rest => if P.title s = P.key m then P.change m s :: rest else s :: enter m rest

theorem enter_of_not_mem {m : μ} {ss : List σ} (h : P.key m ∉ ss.map P.title) :
    P.enter m ss = ss ++ [P.new m] := by
  induction ss with
  | nil => rfl
  | cons s rest ih =>
    rw [List.map_cons, List.mem_cons, not_or] at h
    rw [enter, if_neg (Ne.symm h.1), ih h.2, List.cons_append]

theorem enter_of_mem {m : μ} {ss : List σ} (hdistinct : (ss.map P.title).Nodup)
    (h : P.key m ∈ ss.map P.title) :
    P.enter m ss = ss.map fun s => if P.title s = P.key m then P.change m s else s := by
  induction ss with
  | nil => nomatch h
  | cons s rest ih =>
    rw [List.map_cons, List.nodup_cons] at hdistinct
    rw [enter, List.map_cons]
    by_cases hs : P.title s = P.key m
    · -- the title is not met again
      have hrest : ∀ s' ∈ rest, (if P.title s' = P.key m then P.change m s' else s') = s' :=
        fun s' hs' => if_neg fun h' => hdistinct.1 (by
          rw [hs, ← h']
          exact List.mem_map_of_mem hs')
      rw [if_pos hs, if_pos hs, List.map_congr_left hrest, List.map_id']
    · have hmem : P.key m ∈ rest.map P.title :=
        (List.mem_cons.1 h).resolve_left (Ne.symm hs)
      rw [if_neg hs, if_neg hs, ih hdistinct.2 hmem]

end Policy

/-- The entries that are kept of calls: one for each title, in the order of first use, each with
what it holds of the calls with its title. -/
structure Kept (P : Policy μ σ) (ms : List μ) (ss : List σ) : Prop where
  titles : ss.map P.title = (ms.map P.key).eraseDups
  distinct : (ss.map P.title).Nodup
  entries : ∀ s ∈ ss, P.Entry (ms.filter (P.key · = P.title s)) s

namespace Kept

variable {P : Policy μ σ} {ms : List μ} {ss : List σ}

theorem mem_titles (h : Kept P ms ss) {title : String} :
    title ∈ ss.map P.title ↔ title ∈ ms.map P.key := by
  rw [h.titles, List.mem_eraseDups]

theorem of_titles (titles : ss.map P.title = (ms.map P.key).eraseDups)
    (entries : ∀ s ∈ ss, P.Entry (ms.filter (P.key · = P.title s)) s) : Kept P ms ss :=
  ⟨titles, titles ▸ nodup_eraseDups _, entries⟩

theorem nil : Kept P [] [] := .of_titles rfl (List.forall_mem_nil _)

/-- **One more call.** -/
theorem enter (h : Kept P ms ss) (m : μ) : Kept P (ms ++ [m]) (P.enter m ss) := by
  have hfilter (title : String) : (ms ++ [m]).filter (P.key · = title) =
      ms.filter (P.key · = title) ++ if P.key m = title then [m] else [] := by
    rw [List.filter_append, List.filter_singleton]
    simp
  by_cases hmem : P.key m ∈ ss.map P.title
  · have hkeep (s : σ) : P.title (if P.title s = P.key m then P.change m s else s) = P.title s := by
      split
      · exact P.title_change m s
      · rfl
    rw [P.enter_of_mem h.distinct hmem]
    refine .of_titles ?_ fun s' hs' => ?_
    · rw [List.map_map, List.map_append, List.map_singleton, eraseDups_append_singleton,
        if_pos (h.mem_titles.1 hmem), ← h.titles]
      exact List.map_congr_left fun s _ => hkeep s
    · obtain ⟨s, hs, rfl⟩ := List.mem_map.1 hs'
      rw [hkeep, hfilter]
      have hentry := h.entries s hs
      by_cases hm : P.title s = P.key m
      · rw [if_pos hm, if_pos hm.symm]
        exact P.entry_change m hentry
      · rw [if_neg hm, if_neg (Ne.symm hm), List.append_nil]
        exact hentry
  · have hnew : P.key m ∉ ms.map P.key := fun hold => hmem (h.mem_titles.2 hold)
    rw [P.enter_of_not_mem hmem]
    refine .of_titles ?_ fun s hs => ?_
    · rw [List.map_append, List.map_singleton, List.map_append, List.map_singleton,
        eraseDups_append_singleton, if_neg hnew, h.titles, P.title_new]
    · rcases List.mem_append.1 hs with hs | hs
      · have hne : P.key m ≠ P.title s := fun heq => hmem (heq ▸ List.mem_map_of_mem hs)
        rw [hfilter, if_neg hne, List.append_nil]
        exact h.entries s hs
      · obtain rfl := List.mem_singleton.1 hs
        have hnone : ms.filter (P.key · = P.key m) = [] :=
          List.filter_eq_nil_iff.2 fun m' hm' heq =>
            hnew (of_decide_eq_true heq ▸ List.mem_map_of_mem hm')
        rw [P.title_new, hfilter, if_pos rfl, hnone]
        exact P.entry_new m

/-- A call has an entry. -/
theorem exists_entry (h : Kept P ms ss) {m : μ} (hm : m ∈ ms) : ∃ s ∈ ss, P.title s = P.key m :=
  List.mem_map.1 (h.mem_titles.2 (List.mem_map_of_mem hm))

/-- After more calls an entry has a successor with its title. -/
theorem successor {more : List μ} {ss' : List σ} (h : Kept P ms ss) (h' : Kept P (ms ++ more) ss')
    {s : σ} (hs : s ∈ ss) : ∃ s' ∈ ss', P.title s' = P.title s ∧
      P.Entry (ms.filter (P.key · = P.title s) ++ more.filter (P.key · = P.title s)) s' := by
  have hmem : P.title s ∈ ms.map P.key := h.mem_titles.1 (List.mem_map_of_mem hs)
  have hmem' : P.title s ∈ ss'.map P.title := by
    rw [h'.mem_titles, List.map_append]
    exact List.mem_append_left _ hmem
  obtain ⟨s', hs', htitle⟩ := List.mem_map.1 hmem'
  have hentry := h'.entries s' hs'
  rw [htitle, List.filter_append] at hentry
  exact ⟨s', hs', htitle, hentry⟩

end Kept

end

variable {α : Type}

/-! ## The policies of the sinks -/

/-- What a call gives to a sink: a point, and the options and the pane of a new sink. -/
structure Offer (α ρ : Type) where
  title : String
  options : Options α
  pane : Nat
  point : ρ

/-- The sink has the points of the calls, in their order, and the options and the pane of the
first. -/
def Sink.Of {ρ : Type} (ms : List (Offer α ρ)) (s : Sink α ρ) : Prop :=
  s.data.toList = ms.map (·.point) ∧
    ∃ first, ms.head? = some first ∧ s.options = first.options ∧ s.pane = first.pane

/-- The level has the price and the options of the last of the levels that were given, and the pane
of the first. -/
def Level.Of (given : List (Level α)) (l : Level α) : Prop :=
  (∃ first, given.head? = some first ∧ l.pane = first.pane) ∧
    ∃ last, given.getLast? = some last ∧ l.price = last.price ∧ l.options = last.options

/-- Points are appended. -/
def Policy.appending {ρ : Type} : Policy (Offer α ρ) (Sink α ρ) where
  key := Offer.title
  title := Sink.title
  new m := ⟨m.title, #[m.point], m.options, m.pane⟩
  change m s := { s with data := s.data.push m.point }
  Entry := Sink.Of
  title_new _ := rfl
  title_change _ _ := rfl
  entry_new m := ⟨rfl, m, rfl, rfl, rfl⟩
  entry_change m h := by
    obtain ⟨hdata, first, hfirst, hrest⟩ := h
    refine ⟨?_, first, ?_, hrest⟩
    · rw [Array.toList_push, hdata, List.map_append, List.map_singleton]
    · rw [List.head?_append, hfirst, Option.some_or]

/-- The first fill of a plot is kept. -/
def Policy.firstWins : Policy (Fill α) (Fill α) where
  key := Fill.plot1
  title := Fill.plot1
  new f := f
  change _ f := f
  Entry given f := given.head? = some f
  title_new _ := rfl
  title_change _ _ := rfl
  entry_new _ := rfl
  entry_change _ h := by rw [List.head?_append, h, Option.some_or]

/-- The last level of a title is taken over, but for its pane. -/
def Policy.lastWins : Policy (Level α) (Level α) where
  key := Level.title
  title := Level.title
  new l := l
  change given l := { l with price := given.price, options := given.options }
  Entry := Level.Of
  title_new _ := rfl
  title_change _ _ := rfl
  entry_new l := ⟨⟨l, rfl, rfl⟩, l, rfl, rfl, rfl⟩
  entry_change given h := by
    obtain ⟨⟨first, hfirst, hpane⟩, -⟩ := h
    refine ⟨⟨first, ?_, hpane⟩, given, List.getLast?_concat, rfl, rfl⟩
    rw [List.head?_append, hfirst, Option.some_or]

theorem Sink.record_eq {ρ : Type} (m : Offer α ρ) (ss : List (Sink α ρ)) :
    Sink.record m.title m.options m.pane m.point ss = Policy.appending.enter m ss := by
  induction ss with
  | nil => rfl
  | cons s rest ih =>
    rw [record, Policy.enter, ih]
    rfl

theorem Outputs.setLevel_eq (l : Level α) (ls : List (Level α)) :
    setLevel l.pane l.price l.title l.options ls = Policy.lastWins.enter l ls := by
  induction ls with
  | nil => rfl
  | cons l' rest ih =>
    rw [setLevel, Policy.enter, ih]
    rfl

theorem Outputs.fills_fill (o : Outputs α) (f : Fill α) :
    (o.fill f.plot1 f.plot2 f.options).fills = Policy.firstWins.enter f o.fills := by
  have henter (fs : List (Fill α)) : Policy.firstWins.enter f fs =
      if fs.any (·.plot1 == f.plot1) then fs else fs ++ [f] := by
    induction fs with
    | nil => rfl
    | cons f' rest ih =>
      rw [Policy.enter, ih]
      show (if f'.plot1 = f.plot1 then f' :: rest else f' :: _) = _
      by_cases hf : f'.plot1 = f.plot1
      · simp [hf]
      · by_cases hrest : rest.any (·.plot1 == f.plot1) <;> simp [hf, hrest]
  rw [henter, fill]
  split <;> rfl

end BarScript
