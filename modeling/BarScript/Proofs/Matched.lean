import BarScript.Proofs.Lockstep

/-!
# Contexts of renamed programs

`Context.Matched ρ c c'`: the context `c'` is `c` with the numbers of its slots and of its cache
entries changed by `ρ`. Programs that differ by `ρ` keep that (`Context.Matched.execution`).
`Abreast ρ D c₀ c₀' c c'` says more of an evaluation that keeps to the footprint `D`: the contexts
that it has led to from `c₀` and `c₀'` agree inside `D`, and outside of it nothing has changed.
-/

namespace BarScript

variable {α : Type}

namespace Warmup

@[simp] theorem observe_zero (w : Warmup) : w.observe 0 = w := by
  simp [observe]

theorem observe_comm (w : Warmup) (m n : Nat) :
    (w.observe m).observe n = (w.observe n).observe m := by
  simp only [observe, Warmup.mk.injEq, and_true]
  exact Nat.max_right_comm _ _ _

theorem observe_observe (w : Warmup) (m n : Nat) :
    (w.observe m).observe n = w.observe (Nat.max m n) := by
  simp only [observe, Warmup.mk.injEq, and_true]
  exact Nat.max_assoc _ _ _

end Warmup

namespace Context.Level

variable {c c' c'' : Context α}

theorem refl (c : Context α) : c.Level c := ⟨_, _, _, rfl⟩

theorem symm (h : c.Level c') : c'.Level c := by
  obtain ⟨_, _, _, rfl⟩ := h
  exact ⟨_, _, _, rfl⟩

theorem trans (h : c.Level c') (h' : c'.Level c'') : c.Level c'' := by
  obtain ⟨_, _, _, rfl⟩ := h
  obtain ⟨_, _, _, rfl⟩ := h'
  exact ⟨_, _, _, rfl⟩

theorem written (c : Context α) (s : Stores α) : c.Level { c with stores := s } := ⟨_, _, _, rfl⟩

theorem absorbed (c : Context α) (t : Technical α) : c.Level (c.absorb t) := ⟨_, _, _, rfl⟩

theorem snapshot (h : c.Level c') : c'.snapshot = c.snapshot := by
  obtain ⟨_, _, _, rfl⟩ := h
  rfl

theorem bar (h : c.Level c') : c'.bar = c.bar := by
  obtain ⟨_, _, _, rfl⟩ := h
  rfl

theorem results (h : c.Level c') : c'.results = c.results := by
  obtain ⟨_, _, _, rfl⟩ := h
  rfl

theorem outputs (h : c.Level c') : c'.outputs = c.outputs := by
  obtain ⟨_, _, _, rfl⟩ := h
  rfl

end Context.Level

/-- The cache entry of a handle. -/
def Context.entry (c : Context α) (h : Nat) : Option (CacheEntry α) := c.cache.entries.find? h

/-- The contexts `c` and `c'`, reached from `c₀` and `c₀'` inside the footprint, agree in it. -/
structure Abreast (ρ : Renaming) (D : Footprint) (c₀ c₀' c c' : Context α) : Prop where
  left : c₀.Level c
  right : c₀'.Level c'
  level : c.Level c'
  warmup : ∃ n, c.warmup = c₀.warmup.observe n ∧ c'.warmup = c₀'.warmup.observe n
  slot : ∀ a, D.reads a → c.stores.slot a = c'.stores.slot (ρ.slot a)
  slot_kept : ∀ a, ¬D.writes a → c.stores.slot a = c₀.stores.slot a ∧
    c'.stores.slot (ρ.slot a) = c₀'.stores.slot (ρ.slot a)
  entry : ∀ h, D.calls h → c.entry h = c'.entry (ρ.handle h)
  entry_kept : ∀ h, ¬D.calls h → c.entry h = c₀.entry h ∧
    c'.entry (ρ.handle h) = c₀'.entry (ρ.handle h)

namespace Abreast

variable {ρ : Renaming} {D : Footprint} {c₀ c₀' c c' : Context α}

theorem start (hlevel : c₀.Level c₀')
    (hslot : ∀ a, D.reads a → c₀.stores.slot a = c₀'.stores.slot (ρ.slot a))
    (hentry : ∀ h, D.calls h → c₀.entry h = c₀'.entry (ρ.handle h)) :
    Abreast ρ D c₀ c₀' c₀ c₀' where
  left := .refl _
  right := .refl _
  level := hlevel
  warmup := ⟨0, by simp⟩
  slot := hslot
  slot_kept _ _ := ⟨rfl, rfl⟩
  entry := hentry
  entry_kept _ _ := ⟨rfl, rfl⟩

theorem written (h : Abreast ρ D c₀ c₀' c c') {b b' : Bank} {id id' : Nat}
    (hwrites : D.writes (b, id)) (hslot : ρ.slot (b, id) = (b', id')) (x : α) :
    Abreast ρ D c₀ c₀' { c with stores := c.stores.set b id x }
      { c' with stores := c'.stores.set b' id' x } where
  left := h.left.trans (.written _ _)
  right := h.right.trans (.written _ _)
  level := ((Context.Level.written _ _).symm.trans h.level).trans (.written _ _)
  warmup := h.warmup
  slot a ha := by
    have hsame := h.slot _ (D.reads_of_writes _ hwrites)
    simp only [Stores.slot_set, ← hslot, ρ.slot_injective.eq_iff]
    split
    · rw [hsame]
    · exact h.slot a ha
  slot_kept a ha := by
    have hne : a ≠ (b, id) := by rintro rfl; exact ha hwrites
    simp only [Stores.slot_set, ← hslot, ρ.slot_injective.eq_iff, if_neg hne]
    exact h.slot_kept a ha
  entry := h.entry
  entry_kept := h.entry_kept

variable [Arith α]

theorem called (h : Abreast ρ D c₀ c₀' c c') {k k' : StudyCall}
    (hcalls : ∀ i, k.handle = some i → D.calls i) (hhandle : k'.handle = k.handle.map ρ.handle)
    (hsees : k.Sees c c' k') (nums : List α) :
    (k.perform nums c).1 = (k'.perform nums c').1 ∧
      Abreast ρ D c₀ c₀' (c.absorb (k.perform nums c).2) (c'.absorb (k'.perform nums c').2) := by
  have hentry : c.technical.SameEntry c'.technical k.handle k'.handle := by
    intro i i' hi hi'
    rw [hhandle, hi] at hi'
    cases hi'
    exact h.entry i (hcalls i hi)
  have hagree := k.perform_sees hsees h.level ρ.handle hhandle hentry nums
  obtain ⟨n, hn, hn'⟩ := hagree.lookback
  obtain ⟨n₀, hn₀, hn₀'⟩ := h.warmup
  have hother : ∀ i, k.handle ≠ some i →
      (k'.perform nums c').2.cache.entries.find? (ρ.handle i) = c'.entry (ρ.handle i) := by
    refine fun i hi => hagree.others' _ fun hi' => hi ?_
    rw [hhandle] at hi'
    obtain ⟨j, hj, hij⟩ := Option.map_eq_some_iff.1 hi'
    rw [hj, ρ.handle_injective hij]
  refine ⟨hagree.values, h.left.trans (.absorbed _ _), h.right.trans (.absorbed _ _),
    ((Context.Level.absorbed _ _).symm.trans h.level).trans (.absorbed _ _),
    ⟨Nat.max n₀ n, ?_, ?_⟩, h.slot, h.slot_kept, fun i hi => ?_, fun i hi => ?_⟩
  · show (k.perform nums c).2.warmup = _
    rw [hn, show c.technical.warmup = c.warmup from rfl, hn₀, Warmup.observe_observe]
  · show (k'.perform nums c').2.warmup = _
    rw [hn', show c'.technical.warmup = c'.warmup from rfl, hn₀', Warmup.observe_observe]
  · show (k.perform nums c).2.cache.entries.find? i =
      (k'.perform nums c').2.cache.entries.find? (ρ.handle i)
    by_cases hk : k.handle = some i
    · exact hagree.same i _ hk (by rw [hhandle, hk]; rfl)
    · rw [hagree.others i hk, hother i hk]
      exact h.entry i hi
  · have hk : k.handle ≠ some i := fun hk => hi (hcalls i hk)
    show (k.perform nums c).2.cache.entries.find? i = _ ∧
      (k'.perform nums c').2.cache.entries.find? (ρ.handle i) = _
    rw [hagree.others i hk, hother i hk]
    exact h.entry_kept i hi

/-- **Evaluation** inside the footprint. -/
theorem correspondence (ρ : Renaming) (D : Footprint) (c₀ c₀' : Context α) :
    Correspondence ρ D (fun _ => Abreast ρ D c₀ c₀') fun _ _ => True where
  bar h := h.level.bar.symm
  clock h k := by rw [h.level.snapshot]
  price h p := by rw [h.level.snapshot]
  slot h := h.slot
  skip h := h
  written h hwrites x _ _ hslot := h.written hwrites hslot x
  called h hcalls hhandle hsees nums := h.called hcalls hhandle hsees nums
  failed _ := trivial

end Abreast

/-- The same context with new numbers. -/
structure Context.Matched (ρ : Renaming) (c c' : Context α) : Prop where
  level : c.Level c'
  warmup : c.warmup = c'.warmup
  slot : ∀ a, c.stores.slot a = c'.stores.slot (ρ.slot a)
  entry : ∀ h, c.entry h = c'.entry (ρ.handle h)

namespace Context.Matched

variable {ρ : Renaming} {c c' d d' : Context α}

theorem abreast (h : c.Matched ρ c') (D : Footprint) : Abreast ρ D c c' c c' :=
  .start h.level (fun a _ => h.slot a) fun i _ => h.entry i

theorem of_abreast (h : c.Matched ρ c') (hd : Abreast ρ .all c c' d d') : d.Matched ρ d' where
  level := hd.level
  warmup := by
    obtain ⟨n, hn, hn'⟩ := hd.warmup
    rw [hn, hn', h.warmup]
  slot a := hd.slot a trivial
  entry i := hd.entry i trivial

/-- Renamed calls do the same. -/
theorem called [Arith α] (h : c.Matched ρ c') {k k' : StudyCall}
    (hhandle : k'.handle = k.handle.map ρ.handle) (hsees : k.Sees c c' k') (nums : List α) :
    (k.perform nums c).1 = (k'.perform nums c').1 ∧
      (c.absorb (k.perform nums c).2).Matched ρ (c'.absorb (k'.perform nums c').2) :=
  have hcall := (h.abreast .all).called (fun _ _ => trivial) hhandle hsees nums
  ⟨hcall.1, h.of_abreast hcall.2⟩

/-- **Renamed programs** keep contexts matched. -/
theorem execution [Arith α] (ρ : Renaming) (D : Footprint) :
    Execution ρ D (fun _ => Context.Matched ρ : List Effect → Context α → Context α → Prop)
      fun _ _ => True where
  bar h := h.level.bar.symm
  clock h k := by rw [h.level.snapshot]
  price h p := by rw [h.level.snapshot]
  slot h a _ := h.slot a
  skip h := h
  written h _ x _ _ hslot := h.of_abreast ((h.abreast .all).written trivial hslot x)
  called h _ hhandle hsees nums := h.called hhandle hsees nums
  failed _ := trivial
  outputs h := h.level.outputs.symm
  drawn h o := by
    obtain ⟨stores, cache, warmup, rfl⟩ := h.level
    exact ⟨⟨_, _, _, rfl⟩, h.warmup, h.slot, h.entry⟩

theorem fresh (market : Market α) (precision : Precision) (useCache : Bool) :
    (Context.fresh market precision useCache).Matched ρ (.fresh market precision useCache) where
  level := .refl _
  warmup := rfl
  slot a := by
    have hempty : ∀ a : Bank × Nat, (Stores.empty : Stores α).slot a = .empty := by
      rintro ⟨bank, id⟩
      cases bank <;> rfl
    exact (hempty a).trans (hempty _).symm
  entry _ := rfl

theorem enter (h : c.Matched ρ c') (bar : Nat) :
    (Engine.enter c bar).Matched ρ (Engine.enter c' bar) := by
  obtain ⟨stores, cache, warmup, rfl⟩ := h.level
  exact ⟨⟨_, _, _, rfl⟩, h.warmup, h.slot, h.entry⟩

theorem leave (h : c.Matched ρ c') (results : Results α) :
    (Engine.leave c results).Matched ρ (Engine.leave c' results) := by
  obtain ⟨stores, cache, warmup, rfl⟩ := h.level
  refine ⟨⟨_, _, _, rfl⟩, congrArg Warmup.merge h.warmup, fun a => ?_, h.entry⟩
  show c.stores.shiftAll.slot a = stores.shiftAll.slot (ρ.slot a)
  rw [Stores.slot_shiftAll, Stores.slot_shiftAll]
  exact congrArg (fun s => s.shift.1) (h.slot a)

end Context.Matched

end BarScript
