import BarScript.Proofs.Effect
import BarScript.Script.Resolve

/-!
# Slots and handles

Every slot and every handle is given away once, in the order of the effects. `Allocated s s'` says
of a list of effects what was taken between the scopes `s` and `s'`: its handles and its computed
slots are the ranges between the counts, everything it writes is new, a call with a handle is of a
cached indicator and consumes a series that was there before, and names that have been declared
stay.
-/

namespace BarScript

namespace Scope

/-- Declared names stand for slots that have been taken, each for one of its own and for none of a
computed series. -/
structure Sound (s : Scope) : Prop where
  taken : ∀ name bank id, (name, .series bank id) ∈ s.names → bank ≠ .computed ∧ id < s.taken bank
  distinct : ∀ name name' bank id, (name, .series bank id) ∈ s.names →
    (name', .series bank id) ∈ s.names → name = name'

theorem sound_empty : Sound empty := ⟨fun _ _ _ h => (nomatch h), fun _ _ _ _ h => nomatch h⟩

@[simp] theorem taken_take (s : Scope) (b b' : Bank) :
    (s.take b).taken b' = if b' = b then s.taken b + 1 else s.taken b' := by
  cases b <;> cases b' <;> rfl

@[simp] theorem handles_take (s : Scope) (b : Bank) : (s.take b).handles = s.handles := by
  cases b <;> rfl

@[simp] theorem names_take (s : Scope) (b : Bank) : (s.take b).names = s.names := by
  cases b <;> rfl

theorem Sound.take {s : Scope} (h : s.Sound) (b : Bank) : (s.take b).Sound where
  taken name bank id hm := by
    rw [names_take] at hm
    obtain ⟨hbank, hlt⟩ := h.taken name bank id hm
    refine ⟨hbank, ?_⟩
    rw [taken_take]
    split
    · rename_i hb; subst hb; omega
    · exact hlt
  distinct := by
    rw [names_take]
    exact h.distinct

/-- The slot that is taken next has no name yet. -/
theorem Sound.not_named {s : Scope} (h : s.Sound) (name : String) (bank : Bank) :
    (name, .series bank (s.taken bank)) ∉ s.names := fun hm =>
  Nat.lt_irrefl _ (h.taken name bank _ hm).2

theorem mem_of_find? {s : Scope} {name : String} {b : Binding} (h : s.find? name = some b) :
    (name, b) ∈ s.names := by
  obtain ⟨⟨n, b'⟩, hp, rfl⟩ := Option.map_eq_some_iff.1 h
  obtain rfl : n = name := by simpa using List.find?_some hp
  exact List.mem_of_find?_eq_some hp

/-- A name stands for the same in a scope that knows more names. -/
theorem find?_of_prefix {s s' : Scope} (h : s.names <+: s'.names) {name : String} {b : Binding}
    (hfind : s.find? name = some b) : s'.find? name = some b := by
  obtain ⟨rest, hrest⟩ := h
  obtain ⟨entry, hentry, rfl⟩ := Option.map_eq_some_iff.1 hfind
  rw [find?, ← hrest, List.find?_append, hentry]
  rfl

theorem find?_declared {s : Scope} {name : String} (h : s.find? name = none) (b : Binding) :
    ({ s with names := s.names ++ [(name, b)] } : Scope).find? name = some b := by
  have hnone : s.names.find? (·.1 == name) = none := Option.map_eq_none_iff.1 h
  simp [find?, List.find?_append, hnone]

/-- A reassignment may set variables that have been declared and are no constants. -/
structure Assignable (s : Scope) (bank : Bank) (id : Nat) : Prop where
  bank_ne : bank ≠ .computed
  not_constant : bank ≠ .constants
  taken : id < s.taken bank

theorem Sound.find {s : Scope} (h : s.Sound) {name : String} {bank : Bank} {id : Nat}
    (hfind : s.find? name = some (.series bank id)) : bank ≠ .computed ∧ id < s.taken bank :=
  h.taken name bank id (mem_of_find? hfind)

end Scope

/-- The series has a slot that was taken in the scope, or none. -/
def Source.Within (s : Scope) (src : Source) : Prop := ∀ a, src.slot? = some a → a.2 < s.taken a.1

def Bound.Within (s : Scope) : Bound → Prop
  | series src => src.Within s
  | number _ => True
  | absent => True

theorem Bound.Within.mono {s s' : Scope} {b : Bound} (hle : ∀ a, s.taken a ≤ s'.taken a)
    (h : b.Within s) : b.Within s' := by
  cases b with
  | series src => exact fun a ha => Nat.lt_of_lt_of_le (h a ha) (hle _)
  | number n => trivial
  | absent => trivial

/-- What the effects `es` have taken between two scopes. -/
structure Allocated (s s' : Scope) (es : List Effect) : Prop where
  sound : s'.Sound
  names : s.names <+: s'.names
  handles_le : s.handles ≤ s'.handles
  taken_le : ∀ b, s.taken b ≤ s'.taken b
  handles : es.filterMap Effect.handle? = List.range' s.handles (s'.handles - s.handles)
  computed : es.filterMap Effect.computed? =
    List.range' (s.taken .computed) (s'.taken .computed - s.taken .computed)
  fresh : ∀ b i, .set b i ∈ es → s.taken b ≤ i ∧ i < s'.taken b
  fed : ∀ k a, .call k ∈ es → k.feed? = some a → a.2 < s'.taken a.1
  cached : ∀ k, .call k ∈ es → k.handle ≠ none → k.study.cached = true
  fedFirst : FedFirst es

namespace Allocated

variable {s s₁ s₂ : Scope} {es es' : List Effect}

theorem nil (h : s.Sound) : Allocated s s [] where
  sound := h
  names := List.prefix_rfl
  handles_le := Nat.le_refl _
  taken_le _ := Nat.le_refl _
  handles := by simp
  computed := by simp
  fresh _ _ h := nomatch h
  fed _ _ h := nomatch h
  cached _ h := nomatch h
  fedFirst := .nil

/-- A name that is not known afterwards was not known before. -/
theorem not_found (h : Allocated s s₁ es) {name : String} (hnone : s₁.find? name = none) :
    s.find? name = none := by
  by_contra hne
  obtain ⟨b, hb⟩ := Option.ne_none_iff_exists'.1 hne
  rw [Scope.find?_of_prefix h.names hb] at hnone
  cases hnone

theorem range'_append {a b c : Nat} (h₁ : a ≤ b) (h₂ : b ≤ c) :
    List.range' a (b - a) ++ List.range' b (c - b) = List.range' a (c - a) := by
  rw [show c - a = b - a + (c - b) by omega, ← List.range'_append_1, Nat.add_sub_cancel' h₁]

theorem append (h₁ : Allocated s s₁ es) (h₂ : Allocated s₁ s₂ es') :
    Allocated s s₂ (es ++ es') where
  sound := h₂.sound
  names := h₁.names.trans h₂.names
  handles_le := Nat.le_trans h₁.handles_le h₂.handles_le
  taken_le b := Nat.le_trans (h₁.taken_le b) (h₂.taken_le b)
  handles := by
    rw [List.filterMap_append, h₁.handles, h₂.handles, range'_append h₁.handles_le h₂.handles_le]
  computed := by
    rw [List.filterMap_append, h₁.computed, h₂.computed,
      range'_append (h₁.taken_le _) (h₂.taken_le _)]
  fresh b i h := by
    have hle₁ := h₁.taken_le b
    have hle₂ := h₂.taken_le b
    rcases List.mem_append.1 h with h | h
    · have := h₁.fresh b i h; omega
    · have := h₂.fresh b i h; omega
  fed k a h hk := by
    rcases List.mem_append.1 h with h | h
    · exact Nat.lt_of_lt_of_le (h₁.fed k a h hk) (h₂.taken_le _)
    · exact h₂.fed k a h hk
  cached k h := (List.mem_append.1 h).elim (h₁.cached k) (h₂.cached k)
  fedFirst := by
    refine List.pairwise_append.2 ⟨h₁.fedFirst, h₂.fedFirst, fun e he e' he' hf => ?_⟩
    -- what is written later is new, and what was consumed earlier is not
    cases e' with
    | call _ => exact hf
    | set b i =>
      cases e with
      | set _ _ => exact hf
      | call k =>
        have hlt := h₁.fed k _ he hf
        have hge := (h₂.fresh b i he').1
        simp only at hlt
        omega

/-- A new slot is written. -/
theorem write (h : s.Sound) (b : Bank) : Allocated s (s.take b) [.set b (s.taken b)] where
  sound := h.take b
  names := by simp
  handles_le := by simp
  taken_le b' := by rw [Scope.taken_take]; split <;> simp_all
  handles := by simp [Effect.handle?]
  computed := by cases b <;> simp [Effect.computed?]
  fresh b' i hm := by
    simp only [List.mem_singleton, Effect.set.injEq] at hm
    obtain ⟨rfl, rfl⟩ := hm
    simp
  fed k a h := by simp at h
  cached k h := by simp at h
  fedFirst := List.pairwise_singleton _ _

/-- A call without a handle is made. -/
theorem plainCall (h : s.Sound) {c : StudyCall} (hc : c.handle = none)
    (hfeed : ∀ a, c.feed? = some a → a.2 < s.taken a.1) : Allocated s s [.call c] where
  sound := h
  names := List.prefix_rfl
  handles_le := Nat.le_refl _
  taken_le _ := Nat.le_refl _
  handles := by simp [Effect.handle?, hc]
  computed := by simp [Effect.computed?]
  fresh b i hm := by simp at hm
  fed k a hm hk := by
    simp only [List.mem_singleton, Effect.call.injEq] at hm
    exact hfeed a (hm ▸ hk)
  cached k hm hk := by
    simp only [List.mem_singleton, Effect.call.injEq] at hm
    exact absurd hc (hm ▸ hk)
  fedFirst := List.pairwise_singleton _ _

/-- A call with a new handle is made. -/
theorem cachedCall (h : s.Sound) {c : StudyCall} (hc : c.handle = some s.handles)
    (hcached : c.study.cached = true)
    (hfeed : ∀ a, c.feed? = some a → a.2 < s.taken a.1) :
    Allocated s { s with handles := s.handles + 1 } [.call c] where
  sound := ⟨h.taken, h.distinct⟩
  names := List.prefix_rfl
  handles_le := Nat.le_succ _
  taken_le _ := Nat.le_refl _
  handles := by simp [Effect.handle?, hc]
  computed := by
    show _ = List.range' (s.taken .computed) (s.taken .computed - s.taken .computed)
    simp [Effect.computed?]
  fresh b i hm := by simp at hm
  fed k a hm hk := by
    simp only [List.mem_singleton, Effect.call.injEq] at hm
    exact hfeed a (hm ▸ hk)
  cached k hm _ := by
    simp only [List.mem_singleton, Effect.call.injEq] at hm
    exact hm ▸ hcached
  fedFirst := List.pairwise_singleton _ _

/-- Names are declared for slots that have been taken and have no name yet. -/
theorem named (h : Allocated s s₁ es) (name : String) (b : Binding)
    (hb : ∀ bank id, b = .series bank id → bank ≠ .computed ∧ id < s₁.taken bank ∧
      ∀ n, (n, .series bank id) ∉ s₁.names) :
    Allocated s { s₁ with names := s₁.names ++ [(name, b)] } es where
  sound.taken n bank id hm := by
    rcases List.mem_append.1 hm with hm | hm
    · exact h.sound.taken n bank id hm
    · simp only [List.mem_singleton, Prod.mk.injEq] at hm
      obtain ⟨hbank, hlt, -⟩ := hb bank id hm.2.symm
      exact ⟨hbank, hlt⟩
  sound.distinct n n' bank id hm hm' := by
    rcases List.mem_append.1 hm with hm | hm <;> rcases List.mem_append.1 hm' with hm' | hm'
    · exact h.sound.distinct n n' bank id hm hm'
    · simp only [List.mem_singleton, Prod.mk.injEq] at hm'
      exact absurd hm ((hb bank id hm'.2.symm).2.2 n)
    · simp only [List.mem_singleton, Prod.mk.injEq] at hm
      exact absurd hm' ((hb bank id hm.2.symm).2.2 n')
    · simp only [List.mem_singleton, Prod.mk.injEq] at hm hm'
      exact hm.1.trans hm'.1.symm
  names := h.names.trans (List.prefix_append _ _)
  handles_le := h.handles_le
  taken_le := h.taken_le
  handles := h.handles
  computed := h.computed
  fresh := h.fresh
  fed := h.fed
  cached := h.cached
  fedFirst := h.fedFirst

end Allocated

end BarScript
