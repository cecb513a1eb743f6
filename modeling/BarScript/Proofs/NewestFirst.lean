import Mathlib.Data.List.Basic
import BarScript.Proofs.View

/-!
# A series as a list

A series stores its values the oldest first and is read backwards. `Series.Reads s xs` says that
everything that is read from `s` is read from the list `xs`, whose first element is the current one.
A change of the series is a change of that list at its head (`Series.newestFirst_changed`,
`Series.newestFirst_changedAll`); behind the current value nothing moves (`Series.Keeps`), so that a
view of an earlier bar stays as it is.
-/

namespace BarScript

variable {β : Type}

namespace View

/-- A view is read from its values, the current one first. -/
theorem ago?_eq_newestFirst (v : View β) (k : Nat) : v.ago? k = v.newestFirst[k]? := v.ago?_eq k

end View

namespace Series

/-! ## Reading -/

@[simp] theorem newestFirst_ofList (xs : List β) : (ofList xs).newestFirst = xs.reverse := rfl

@[simp] theorem newestFirst_ofNewestFirst (xs : List β) : (ofNewestFirst xs).newestFirst = xs :=
  List.reverse_reverse xs

theorem length_newestFirst (s : Series β) : s.newestFirst.length = s.size := by
  rw [newestFirst, List.length_reverse, length_toList]

theorem current?_eq_head? (s : Series β) : s.current? = s.newestFirst.head? := by
  rw [newestFirst, List.head?_reverse, toList, current?, Array.getLast?_toList]

theorem isEmpty_eq (s : Series β) : s.isEmpty = s.newestFirst.isEmpty := by
  rw [newestFirst, List.isEmpty_reverse, toList, isEmpty, Array.isEmpty_toList]

/-- The view of a bar holds the values up to that bar. -/
theorem exists_view {s : Series β} {bar : Nat} (h : bar < s.size) :
    ∃ v, s.view? bar = some v ∧ v.toList = s.toList.take (bar + 1) := by
  have hsize : bar < s.values.size := h
  refine ⟨_, dif_pos hsize, List.ext_getElem ?_ fun i h₁ h₂ => ?_⟩
  · rw [View.length_toList, List.length_take, length_toList, Nat.min_eq_left h]
  · rw [List.getElem_take]
    simp only [View.toList, List.getElem_ofFn, toList, Array.getElem_toList]
    rfl

theorem view?_eq_none_iff {s : Series β} {bar : Nat} : s.view? bar = none ↔ s.size ≤ bar := by
  unfold view?
  split
  · rename_i h
    exact ⟨nofun, fun hle => absurd h (Nat.not_lt.2 hle)⟩
  · rename_i h
    exact ⟨fun _ => Nat.not_lt.1 h, fun _ => rfl⟩

theorem shift_of_current? {s : Series β} {x : β} (h : s.current? = some x) :
    s.shift = (s.push x, true) := by
  rw [shift, h]

theorem shift_of_none {s : Series β} (h : s.current? = none) : s.shift = (s, false) := by
  rw [shift, h]

theorem shift_eq_false_iff {s : Series β} : s.shift.2 = false ↔ s.newestFirst = [] := by
  rw [← List.head?_eq_none_iff, ← current?_eq_head?]
  cases h : s.current? with
  | none => simp [shift_of_none h]
  | some x => simp [shift_of_current? h]

theorem shift_eq_self {s : Series β} (h : s.newestFirst = []) : s.shift.1 = s := by
  rw [shift_of_none (by rw [current?_eq_head?, h]; rfl)]

/-- Everything that is read from the series is read from `xs`, the current value first. -/
structure Reads (s : Series β) (xs : List β) : Prop where
  newestFirst : s.newestFirst = xs
  size : s.size = xs.length
  isEmpty : s.isEmpty = xs.isEmpty
  current : s.current? = xs.head?
  ago : ∀ k, s.ago? k = xs[k]?
  beyond : ∀ k, s.ago? k = none ↔ xs.length ≤ k
  /-- The view of a bar leaves out the values of the later bars. -/
  view : ∀ bar, bar < xs.length → ∃ v, s.view? bar = some v ∧ v.size = bar + 1 ∧
    v.newestFirst = xs.drop (xs.length - 1 - bar) ∧
    ∀ k, v.ago? k = (xs.drop (xs.length - 1 - bar))[k]?
  noView : ∀ bar, s.view? bar = none ↔ xs.length ≤ bar
  /-- A bar can be started except while there is no value. -/
  refuses : s.shift.2 = false ↔ xs = []
  refused : xs = [] → s.shift.1 = s

theorem reads_newestFirst (s : Series β) : s.Reads s.newestFirst where
  newestFirst := rfl
  size := s.length_newestFirst.symm
  isEmpty := s.isEmpty_eq
  current := s.current?_eq_head?
  ago := s.ago?_eq
  beyond k := by
    rw [s.ago?_eq, List.getElem?_eq_none_iff]
    rfl
  view bar h := by
    rw [length_newestFirst] at h
    obtain ⟨v, hv, hvalues⟩ := exists_view h
    have hlist : v.newestFirst = s.newestFirst.drop (s.newestFirst.length - 1 - bar) := by
      have hlater : s.size - (s.size - 1 - bar) = bar + 1 := by omega
      rw [View.newestFirst, hvalues, length_newestFirst, Series.newestFirst, List.drop_reverse,
        length_toList, hlater]
    refine ⟨v, hv, ?_, hlist, fun k => ?_⟩
    · rw [← View.length_toList, hvalues, List.length_take, length_toList, Nat.min_eq_left h]
    · rw [View.ago?_eq_newestFirst, hlist]
  noView bar := by rw [view?_eq_none_iff, length_newestFirst]
  refuses := shift_eq_false_iff
  refused := shift_eq_self

/-! ## Changes -/

/-- A change of a series. -/
inductive Change (β : Type) where
  | push (x : β)
  | setCurrent (x : β)
  | shift
  deriving DecidableEq, Repr

/-- What a change does to a list whose first element is the current one. -/
def Change.atHead : List β → Change β → List β
  | xs, .push x => x :: xs
  | [], .setCurrent x => [x]
  | _ :: xs, .setCurrent x => x :: xs
  | [], .shift => []
  | x :: xs, .shift => x :: x :: xs

def changed (s : Series β) : Change β → Series β
  | .push x => s.push x
  | .setCurrent x => s.setCurrent x
  | .shift => s.shift.1

/-- The series after changes, from the first to the last. -/
def changedAll (s : Series β) (cs : List (Change β)) : Series β := cs.foldl changed s

/-- **One change** is a change at the head of the list. -/
theorem newestFirst_changed (s : Series β) (c : Change β) :
    (s.changed c).newestFirst = c.atHead s.newestFirst := by
  cases c with
  | push x => exact newestFirst_push s x
  | setCurrent x =>
    show (s.setCurrent x).toList.reverse = _
    rw [toList_setCurrent, List.reverse_append, ← List.tail_reverse]
    show x :: s.newestFirst.tail = _
    cases s.newestFirst <;> rfl
  | shift =>
    show s.shift.1.newestFirst = _
    cases h : s.current? with
    | none =>
      have hnone : s.newestFirst = [] := List.head?_eq_none_iff.1 (s.current?_eq_head? ▸ h)
      rw [shift_of_none h, hnone]
      rfl
    | some x =>
      obtain ⟨xs, hxs⟩ := List.head?_eq_some_iff.1 (s.current?_eq_head? ▸ h)
      rw [shift_of_current? h, newestFirst_push, hxs]
      rfl

/-- **Changes** are changes at the head of the list. -/
theorem newestFirst_changedAll (s : Series β) (cs : List (Change β)) :
    (s.changedAll cs).newestFirst = cs.foldl Change.atHead s.newestFirst := by
  induction cs generalizing s with
  | nil => rfl
  | cons c cs ih =>
    show ((s.changed c).changedAll cs).newestFirst = _
    rw [ih, newestFirst_changed, List.foldl_cons]

/-! ## Earlier bars -/

/-- The series `s'` goes on from `s`: only the current value of `s` may be another one. -/
structure Keeps (s s' : Series β) : Prop where
  size : s.size ≤ s'.size
  earlier : ∀ bar, bar + 1 < s.size → s'.toList[bar]? = s.toList[bar]?

theorem Keeps.refl (s : Series β) : s.Keeps s := ⟨Nat.le_refl _, fun _ _ => rfl⟩

theorem Keeps.trans {s s' s'' : Series β} (h : s.Keeps s') (h' : s'.Keeps s'') : s.Keeps s'' where
  size := Nat.le_trans h.size h'.size
  earlier bar hbar := (h'.earlier bar (Nat.lt_of_lt_of_le hbar h.size)).trans (h.earlier bar hbar)

/-- A series that begins with all values of `s` but the current one goes on from `s`. -/
theorem Keeps.of_dropLast {s s' : Series β} (hsize : s.size ≤ s'.size)
    (h : s.toList.dropLast <+: s'.toList) : s.Keeps s' := by
  refine ⟨hsize, fun bar hbar => ?_⟩
  have hlt : bar < s.toList.dropLast.length := by
    rw [List.length_dropLast, length_toList]
    omega
  have hbegin {xs : List β} (h : s.toList.dropLast <+: xs) :
      xs[bar]? = s.toList.dropLast[bar]? := by
    obtain ⟨rest, rfl⟩ := h
    exact List.getElem?_append_left hlt
  rw [hbegin h, hbegin (List.dropLast_prefix _)]

theorem keeps_push (s : Series β) (x : β) : s.Keeps (s.push x) := by
  have hlist : (s.push x).toList = s.toList ++ [x] := s.toList_push x
  refine .of_dropLast ?_ ((List.dropLast_prefix _).trans (hlist ▸ List.prefix_append _ _))
  rw [← length_toList, ← length_toList, hlist, List.length_append]
  exact Nat.le_add_right _ _

/-- **One change** keeps the earlier values. -/
theorem keeps_changed (s : Series β) (c : Change β) : s.Keeps (s.changed c) := by
  cases c with
  | push x => exact s.keeps_push x
  | setCurrent x =>
    have hlist := s.toList_setCurrent x
    refine .of_dropLast ?_ (hlist ▸ List.prefix_append _ _)
    show s.size ≤ (s.setCurrent x).size
    rw [← length_toList, ← length_toList, hlist, List.length_append, List.length_dropLast,
      List.length_singleton]
    omega
  | shift =>
    show s.Keeps s.shift.1
    cases h : s.current? with
    | none => rw [shift_of_none h]; exact .refl s
    | some x => rw [shift_of_current? h]; exact s.keeps_push x

/-- **Changes** keep the earlier values. -/
theorem keeps_changedAll (s : Series β) (cs : List (Change β)) : s.Keeps (s.changedAll cs) := by
  induction cs generalizing s with
  | nil => exact .refl s
  | cons c cs ih => exact (s.keeps_changed c).trans (ih (s.changed c))

/-- A view of an earlier bar stays as it is. -/
theorem Keeps.view? {s s' : Series β} (h : s.Keeps s') {bar : Nat} (hbar : bar + 1 < s.size) :
    s'.view? bar = s.view? bar := by
  have hlt : bar < s.size := Nat.lt_of_succ_lt hbar
  obtain ⟨v, hv, hvalues⟩ := exists_view hlt
  obtain ⟨v', hv', hvalues'⟩ := exists_view (Nat.lt_of_lt_of_le hlt h.size)
  have hsame : v' = v := by
    refine View.ext_toList ?_
    rw [hvalues, hvalues']
    refine List.ext_getElem? fun i => ?_
    simp only [List.getElem?_take]
    split
    · exact h.earlier i (by omega)
    · rfl
  rw [hv, hv', hsame]

/-- **A series is a list with its current value at the head.** However a series is built, it reads
as its list of values. After any changes it reads as that list after the same changes at its head,
it has not become shorter, and every value but the current one has its place from the oldest on and
its value, so that the views of these bars are the same. -/
theorem reads_changedAll (s : Series β) (cs : List (Change β)) :
    (∀ xs : List β, (ofList xs).Reads xs.reverse ∧ (ofNewestFirst xs).Reads xs) ∧
    (s.changedAll cs).Reads (cs.foldl Change.atHead s.newestFirst) ∧
    s.size ≤ (s.changedAll cs).size ∧
    ∀ bar, bar + 1 < s.size →
      (s.changedAll cs).toList[bar]? = s.toList[bar]? ∧
        (s.changedAll cs).view? bar = s.view? bar := by
  have hkeeps := s.keeps_changedAll cs
  refine ⟨fun xs => ⟨?_, ?_⟩, ?_, hkeeps.size, fun bar hbar => ?_⟩
  · have hreads := (ofList xs).reads_newestFirst
    rwa [newestFirst_ofList] at hreads
  · have hreads := (ofNewestFirst xs).reads_newestFirst
    rwa [newestFirst_ofNewestFirst] at hreads
  · have hreads := (s.changedAll cs).reads_newestFirst
    rwa [newestFirst_changedAll] at hreads
  · exact ⟨hkeeps.earlier bar hbar, hkeeps.view? hbar⟩

/-- Three bars of which the current one is set before and after the next one is started. -/
theorem reads_changedAll_three :
    let s : Series Nat := ofList [1, 2, 3]
    let cs : List (Change Nat) := [.setCurrent 4, .shift, .setCurrent 5, .push 6]
    (s.changedAll cs).Reads [6, 5, 4, 2, 1] ∧ 1 + 1 < s.size ∧
      (s.changedAll cs).view? 1 = s.view? 1 := by
  intro s cs
  obtain ⟨-, hreads, -, hkept⟩ := s.reads_changedAll cs
  have hbar : 1 + 1 < s.size := by decide
  exact ⟨hreads, hbar, (hkept 1 hbar).2⟩

end Series

end BarScript
