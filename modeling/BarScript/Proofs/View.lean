import Mathlib.Data.List.OfFn
import BarScript.Run.Context
import BarScript.Script.Evaluate

/-!
# What a view holds

A view is determined by its list (`View.ext_toList`). The view of a market at a bar begins the
market (`Snapshot.toList_view`), and the view of any series begins everything that the series holds
(`Source.view_prefix`).
-/

namespace BarScript

variable {α β : Type}

namespace View

theorem ext_toList {v w : View β} (h : v.toList = w.toList) : v = w := by
  obtain ⟨n, f⟩ := v
  obtain ⟨n', g⟩ := w
  obtain rfl : n = n' := by simpa using congrArg List.length h
  rw [View.mk.injEq]
  exact ⟨rfl, heq_of_eq (List.ofFn_injective h)⟩

@[simp] theorem toList_empty : (empty : View β).toList = [] := rfl

theorem ago?_eq (v : View β) (k : Nat) : v.ago? k = v.toList.reverse[k]? := by
  unfold ago?
  split
  · rename_i h
    rw [List.getElem?_eq_getElem (by simpa using h), List.getElem_reverse]
    simp [toList]
  · rename_i h
    rw [List.getElem?_eq_none (by simp; omega)]

theorem current?_eq (v : View β) : v.current? = v.toList.getLast? := by
  rw [current?, ago?_eq, ← List.head?_eq_getElem?, List.head?_reverse]

end View

@[simp] theorem Series.toList_full (s : Series β) : s.full.toList = s.toList := by
  apply List.ext_getElem <;> simp [Series.full, View.toList, Series.toList]

theorem Series.ago?_eq (s : Series β) (k : Nat) : s.ago? k = s.toList.reverse[k]? := by
  rw [ago?, View.ago?_eq, toList_full]

theorem Snapshot.toList_view (s : Snapshot α) (f : Bar α → β) :
    (s.view f).toList =
      if s.bar < s.market.size then (s.market.bars.toList.take (s.bar + 1)).map f else [] := by
  unfold Snapshot.view Market.size
  split
  · rename_i h
    apply List.ext_getElem
    · simp; omega
    · intro i h1 h2
      simp only [View.toList, List.getElem_ofFn, List.getElem_map, List.getElem_take,
        Array.getElem_toList]
      rfl
  · rfl

theorem Snapshot.view_prefix (s : Snapshot α) (f : Bar α → β) :
    (s.view f).toList <+: s.market.bars.toList.map f := by
  rw [toList_view]
  split
  · exact (List.take_prefix _ _).map f
  · exact List.nil_prefix

/-! ## Histories -/

/-- The series of a slot. -/
def Stores.slot (s : Stores α) (a : Bank × Nat) : Series α := (s.bank a.1).series a.2

theorem Stores.slot_set (s : Stores α) (bank : Bank) (id : Nat) (x : α) (a : Bank × Nat) :
    (s.set bank id x).slot a =
      if a = (bank, id) then (s.slot (bank, id)).setCurrent x else s.slot a := by
  obtain ⟨b, i⟩ := a
  simp only [slot, bank_set, Prod.mk.injEq]
  by_cases hb : b = bank
  · subst hb
    by_cases hi : i = id <;> simp [hi, Store.series_set]
  · simp [hb]

@[simp] theorem Stores.slot_shiftAll (s : Stores α) (a : Bank × Nat) :
    s.shiftAll.slot a = (s.slot a).shift.1 := by
  simp only [slot, bank_shiftAll, Store.series_shift]

/-- Everything that a series holds: a price at all bars of the market, or all of a slot. -/
def Source.history [Arith α] (s : Source) (ctx : Context α) : List α :=
  match s with
  | price p => ctx.market.bars.toList.map p.ofBar
  | slot bank id => (ctx.stores.slot (bank, id)).toList
  | computed id _ => (ctx.stores.slot (.computed, id)).toList

theorem Source.view_prefix [Arith α] (s : Source) (ctx : Context α) :
    (s.view ctx).toList <+: s.history ctx := by
  have full : ∀ v : Series α, v.full.toList <+: v.toList := by simp
  cases s with
  | price p => exact ctx.snapshot.view_prefix _
  | slot bank id => exact full _
  | computed id value => exact full _

end BarScript
