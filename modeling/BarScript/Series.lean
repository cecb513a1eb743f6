import BarScript.Arith

/-!
# Series and views

A `Series` keeps the values of the bars seen so far, the oldest first. It is read backwards: the
element `k` bars ago, with the current bar at `k = 0`. A `View` is a finite run of values that is
read the same way; `Series.view` is the series as it was at an earlier bar.
-/

namespace BarScript

/-- A finite run of values, indexed from the oldest. -/
structure View (β : Type) where
  size : Nat
  get : Fin size → β

namespace View

variable {β : Type}

/-- No values. -/
def empty : View β := ⟨0, fun i => i.elim0⟩

/-- The view of a list, whose last element is the current one. -/
def ofList (xs : List β) : View β :=
  let values := xs.toArray
  ⟨values.size, fun i => values[i]⟩

/-- The values, the oldest first. -/
def toList (v : View β) : List β := List.ofFn v.get

/-- The values, the current one first. -/
def newestFirst (v : View β) : List β := v.toList.reverse

/-- The value `k` bars ago, if the view goes back that far. -/
def ago? (v : View β) (k : Nat) : Option β :=
  if h : k < v.size then some (v.get ⟨v.size - 1 - k, by omega⟩) else none

/-- The value of the current bar. -/
def current? (v : View β) : Option β := v.ago? 0

/-- The value `k` bars ago, unavailable past the oldest. -/
def ago {α : Type} [Arith α] (v : View α) (k : Nat) : α := (v.ago? k).getD Arith.nan

@[simp] theorem length_toList (v : View β) : v.toList.length = v.size := by
  simp [toList]

end View

/-- The values of a quantity at the bars seen so far. -/
structure Series (β : Type) where
  /-- The oldest value first. -/
  values : Array β
  deriving DecidableEq

namespace Series

variable {β : Type}

def empty : Series β := ⟨#[]⟩

instance : Inhabited (Series β) := ⟨empty⟩

/-- The series of a list whose last element is the current one. -/
def ofList (xs : List β) : Series β := ⟨xs.toArray⟩

/-- The series of a list whose first element is the current one. -/
def ofNewestFirst (xs : List β) : Series β := ofList xs.reverse

def size (s : Series β) : Nat := s.values.size

def isEmpty (s : Series β) : Bool := s.values.isEmpty

/-- The values, the oldest first. -/
def toList (s : Series β) : List β := s.values.toList

/-- The values, the current one first. -/
def newestFirst (s : Series β) : List β := s.toList.reverse

/-- The view that ends at the bar `bar`, counted from the oldest, if there is such a bar. -/
def view? (s : Series β) (bar : Nat) : Option (View β) :=
  if h : bar < s.values.size then
    some ⟨bar + 1, fun i => s.values[i]⟩
  else none

/-- The view of all values. -/
def full (s : Series β) : View β := ⟨s.values.size, fun i => s.values[i]⟩

/-- The value `k` bars ago. -/
def ago? (s : Series β) (k : Nat) : Option β := s.full.ago? k

/-- The value of the current bar. -/
def current? (s : Series β) : Option β := s.values.back?

/-- The value `k` bars ago, unavailable past the oldest. -/
def ago {α : Type} [Arith α] (s : Series α) (k : Nat) : α := (s.ago? k).getD Arith.nan

/-- Appends the value of a new current bar. -/
def push (s : Series β) (x : β) : Series β := ⟨s.values.push x⟩

/-- Replaces the value of the current bar; the first value starts the series. -/
def setCurrent (s : Series β) (x : β) : Series β :=
  if s.values.isEmpty then ⟨#[x]⟩ else ⟨s.values.pop.push x⟩

/-- Starts a new bar with the value of the current one. Nothing happens, and the answer is `false`,
while there is no value. -/
def shift (s : Series β) : Series β × Bool :=
  match s.current? with
  | some x => (s.push x, true)
  | none => (s, false)

@[simp] theorem toList_push (s : Series β) (x : β) : (s.push x).toList = s.toList ++ [x] := by
  simp [push, toList]

@[simp] theorem newestFirst_push (s : Series β) (x : β) :
    (s.push x).newestFirst = x :: s.newestFirst := by
  simp [newestFirst]

@[simp] theorem length_toList (s : Series β) : s.toList.length = s.size := rfl

@[simp] theorem toList_empty : (empty : Series β).toList = [] := rfl

theorem toList_setCurrent (s : Series β) (x : β) :
    (s.setCurrent x).toList = s.toList.dropLast ++ [x] := by
  obtain ⟨⟨xs⟩⟩ := s
  cases xs <;> simp [setCurrent, toList]

theorem toList_shift (s : Series β) : s.shift.1.toList = s.toList ++ s.toList.getLast?.toList := by
  obtain ⟨⟨xs⟩⟩ := s
  simp only [shift, current?, toList, List.back?_toArray]
  cases xs.getLast? <;> simp [push]

/-- All values but the current one stay. -/
theorem take_setCurrent {s : Series β} {n : Nat} (h : n < s.size) (x : β) :
    (s.setCurrent x).toList.take n = s.toList.take n := by
  have hlen : n ≤ s.toList.dropLast.length := by
    rw [List.length_dropLast, length_toList]
    omega
  rw [toList_setCurrent, List.take_append_of_le_length hlen, List.dropLast_eq_take, List.take_take,
    length_toList, Nat.min_eq_left (by omega)]

theorem size_setCurrent {s : Series β} (h : 0 < s.size) (x : β) :
    (s.setCurrent x).size = s.size := by
  rw [← length_toList, toList_setCurrent, List.length_append, List.length_dropLast, length_toList,
    List.length_singleton]
  omega

theorem size_shift {s : Series β} (h : 0 < s.size) : s.shift.1.size = s.size + 1 := by
  rw [← length_toList, toList_shift, List.length_append, length_toList]
  cases hlast : s.toList.getLast? with
  | some x => rfl
  | none =>
    rw [List.getLast?_eq_none_iff, ← List.length_eq_zero_iff, length_toList] at hlast
    omega

end Series

end BarScript
