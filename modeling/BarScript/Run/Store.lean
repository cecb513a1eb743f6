import BarScript.Series

/-!
# Stores

A script keeps the series of its variables in slots, and the slots in four banks: constants,
states that last from bar to bar, bindings made anew at every bar, and computed arguments of
indicators. At the end of a bar every series that has been written is carried to the next one.
-/

namespace BarScript

inductive Bank where
  | constants | states | bindings | computed
  deriving DecidableEq, Repr

/-- The slots of a bank. A slot that has not been written holds the empty series. -/
structure Store (α : Type) where
  slots : Array (Series α)
  deriving DecidableEq

namespace Store

variable {α : Type}

def empty : Store α := ⟨#[]⟩

/-- The series of a slot. -/
def series (s : Store α) (id : Nat) : Series α := s.slots.getD id .empty

/-- Everything a slot holds. -/
def view (s : Store α) (id : Nat) : View α := (s.series id).full

/-- Sets the value of a slot at the current bar; slots up to it are created. -/
def set (s : Store α) (id : Nat) (x : α) : Store α :=
  let missing := Array.replicate (id + 1 - s.slots.size) Series.empty
  ⟨(s.slots ++ missing).modify id (·.setCurrent x)⟩

/-- Carries every written series to the next bar. -/
def shift (s : Store α) : Store α := ⟨s.slots.map fun v => v.shift.1⟩

theorem series_set (s : Store α) (id id' : Nat) (x : α) :
    (s.set id x).series id' = if id' = id then (s.series id).setCurrent x else s.series id' := by
  let missing := Array.replicate (id + 1 - s.slots.size) (Series.empty : Series α)
  have hget : ∀ i : Nat,
      ((s.slots ++ missing)[i]?).getD Series.empty = (s.slots[i]?).getD Series.empty := by
    intro i
    rw [Array.getElem?_append]
    split
    · rfl
    · rw [Array.getElem?_replicate, Array.getElem?_eq_none (by omega)]
      split <;> rfl
  have hin : id < (s.slots ++ missing).size := by simp [missing]; omega
  simp only [series, set, Array.getD_eq_getD_getElem?, Array.getElem?_modify]
  by_cases h : id' = id
  · subst h
    rw [if_pos rfl, if_pos rfl, ← hget, Array.getElem?_eq_getElem hin]
    rfl
  · rw [if_neg (Ne.symm h), if_neg h]
    exact hget id'

@[simp] theorem series_shift (s : Store α) (id : Nat) :
    s.shift.series id = (s.series id).shift.1 := by
  simp only [series, shift, Array.getD_eq_getD_getElem?, Array.getElem?_map]
  cases s.slots[id]? <;> rfl

end Store

structure Stores (α : Type) where
  constants : Store α
  states : Store α
  bindings : Store α
  computed : Store α
  deriving DecidableEq

namespace Stores

variable {α : Type}

def empty : Stores α := ⟨.empty, .empty, .empty, .empty⟩

def bank (s : Stores α) : Bank → Store α
  | .constants => s.constants
  | .states => s.states
  | .bindings => s.bindings
  | .computed => s.computed

/-- Changes one bank. -/
def modify (s : Stores α) (b : Bank) (f : Store α → Store α) : Stores α :=
  match b with
  | .constants => { s with constants := f s.constants }
  | .states => { s with states := f s.states }
  | .bindings => { s with bindings := f s.bindings }
  | .computed => { s with computed := f s.computed }

/-- Sets the value of a slot at the current bar. -/
def set (s : Stores α) (b : Bank) (id : Nat) (x : α) : Stores α := s.modify b (·.set id x)

/-- Carries all written series to the next bar. -/
def shiftAll (s : Stores α) : Stores α :=
  ⟨s.constants.shift, s.states.shift, s.bindings.shift, s.computed.shift⟩

theorem bank_set (s : Stores α) (b b' : Bank) (id : Nat) (x : α) :
    (s.set b id x).bank b' = if b' = b then (s.bank b).set id x else s.bank b' := by
  cases b <;> cases b' <;> rfl

@[simp] theorem bank_shiftAll (s : Stores α) (b : Bank) : s.shiftAll.bank b = (s.bank b).shift := by
  cases b <;> rfl

end Stores

end BarScript
