/-!
# Sorted association lists

Keys with values in ascending order of the keys, each key once. Two such lists that hold the same
values are equal, so they can be compared and printed as they are.
-/

namespace BarScript

/-- Values by key. -/
structure Assoc (κ β : Type) where
  /-- The keys ascend. -/
  pairs : List (κ × β)
  deriving DecidableEq, Repr

namespace Assoc

variable {κ β : Type}

def empty : Assoc κ β := ⟨[]⟩

instance : EmptyCollection (Assoc κ β) := ⟨empty⟩

def size (m : Assoc κ β) : Nat := m.pairs.length

def isEmpty (m : Assoc κ β) : Bool := m.pairs.isEmpty

/-- The value of a key. -/
def find? [DecidableEq κ] (m : Assoc κ β) (k : κ) : Option β :=
  (m.pairs.find? fun p => decide (p.1 = k)).map (·.2)

/-- Sets the value of a key in an ascending list. -/
def insertPair [LT κ] [DecidableLT κ] (k : κ) (v : β) : List (κ × β) → List (κ × β)
  | [] => [(k, v)]
  | p :: ps =>
    if k < p.1 then (k, v) :: p :: ps
    else if p.1 < k then p :: insertPair k v ps
    else (k, v) :: ps

/-- Sets the value of a key. -/
def insert [LT κ] [DecidableLT κ] (m : Assoc κ β) (k : κ) (v : β) : Assoc κ β :=
  ⟨insertPair k v m.pairs⟩

/-! ## Keys -/

def keys (m : Assoc κ β) : List κ := m.pairs.map (·.1)

theorem length_keys (m : Assoc κ β) : m.keys.length = m.size := List.length_map _

theorem mem_keys_iff [DecidableEq κ] {m : Assoc κ β} {k : κ} :
    k ∈ m.keys ↔ (m.find? k).isSome = true := by
  simp [keys, find?]

section

variable [LT κ] [DecidableLT κ]

theorem mem_keys_insert [Std.Trichotomous (fun a b : κ => a < b)] {m : Assoc κ β} {k k' : κ}
    {v : β} : k' ∈ (m.insert k v).keys ↔ k' = k ∨ k' ∈ m.keys := by
  obtain ⟨ps⟩ := m
  simp only [keys, insert]
  induction ps with
  | nil => simp [insertPair]
  | cons p ps ih =>
    rw [insertPair]
    split
    · simp
    split
    · rw [List.map_cons, List.mem_cons, ih, List.map_cons, List.mem_cons]
      exact or_left_comm
    · rename_i hlt hgt
      obtain rfl : p.1 = k := Std.Trichotomous.trichotomous _ _ hgt hlt
      simp

/-- The keys ascend. -/
def Ascending (m : Assoc κ β) : Prop := m.keys.Pairwise (· < ·)

theorem Ascending.insert [Std.Trichotomous (fun a b : κ => a < b)]
    [Trans (fun a b : κ => a < b) (fun a b : κ => a < b) (fun a b : κ => a < b)] {m : Assoc κ β}
    (h : m.Ascending) (k : κ) (v : β) :
    (m.insert k v).Ascending := by
  obtain ⟨ps⟩ := m
  simp only [Ascending, keys, Assoc.insert] at h ⊢
  induction ps with
  | nil => simp [insertPair]
  | cons p ps ih =>
    obtain ⟨hfirst, hrest⟩ := List.pairwise_cons.1 h
    rw [insertPair]
    split
    · rename_i hlt
      refine List.pairwise_cons.2 ⟨fun k' hk' => ?_, h⟩
      rcases List.mem_cons.1 hk' with rfl | hk'
      · exact hlt
      · exact Trans.trans hlt (hfirst k' hk')
    split
    · rename_i hgt
      refine List.pairwise_cons.2 ⟨fun k' hk' => ?_, ih hrest⟩
      have hmem : k' ∈ (Assoc.insert ⟨ps⟩ k v).keys := hk'
      rcases mem_keys_insert.1 hmem with rfl | hk'
      · exact hgt
      · exact hfirst k' hk'
    · rename_i hlt hgt
      obtain rfl : p.1 = k := Std.Trichotomous.trichotomous _ _ hgt hlt
      exact h

end

/-! ## Values -/

variable [LT κ] [DecidableLT κ] [DecidableEq κ]

@[simp] theorem find?_insert_self [Std.Irrefl (fun a b : κ => a < b)] (m : Assoc κ β) (k : κ)
    (v : β) : (m.insert k v).find? k = some v := by
  obtain ⟨ps⟩ := m
  simp only [find?, insert]
  induction ps with
  | nil => simp [insertPair]
  | cons p ps ih =>
    rw [insertPair]
    split
    · simp
    split
    · rename_i hlt
      have hne : p.1 ≠ k := fun h => Std.Irrefl.irrefl k (h ▸ hlt)
      rw [List.find?_cons_of_neg (by simpa using hne), ih]
    · simp

theorem find?_insert_of_ne [Std.Trichotomous (fun a b : κ => a < b)] (m : Assoc κ β) {k k' : κ}
    (h : k' ≠ k) (v : β) : (m.insert k v).find? k' = m.find? k' := by
  obtain ⟨ps⟩ := m
  simp only [find?, insert]
  have skip : ∀ (v : β) ps, List.find? (fun p => decide (p.1 = k')) ((k, v) :: ps) =
      List.find? (fun p => decide (p.1 = k')) ps :=
    fun v ps => List.find?_cons_of_neg (by simpa using h.symm)
  induction ps with
  | nil => rw [insertPair, skip]
  | cons p ps ih =>
    rw [insertPair]
    split
    · rw [skip]
    split
    · by_cases hp : p.1 = k'
      · simp [hp]
      · rw [List.find?_cons_of_neg (by simpa using hp), List.find?_cons_of_neg (by simpa using hp),
          ih]
    · rename_i hlt hgt
      have hp : p.1 = k := Std.Trichotomous.trichotomous _ _ hgt hlt
      obtain ⟨k₀, v₀⟩ := p
      subst hp
      rw [skip, skip]

end Assoc

end BarScript
