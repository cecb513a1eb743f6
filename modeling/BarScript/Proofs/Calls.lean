import BarScript.Proofs.Renaming
import BarScript.Proofs.View

/-!
# What an indicator call depends on

A call depends on the indicator, on the views of its series, on its numbers, on the market up to the
current bar and on the cache entry of its handle. So calls that `Sees` the same give the same values
and lookbacks, and leave the same entry under their handles (`StudyCallOf.perform_sees`).
-/

namespace BarScript

variable {α : Type} [Arith α]

/-- The contexts differ in the stores, the cache and the warm-up only. -/
def Context.Level (c c' : Context α) : Prop :=
  ∃ stores cache warmup, c' = { c with stores := stores, cache := cache, warmup := warmup }

/-- Arguments that stand for the same, each in its own context. -/
inductive Bound.Sees (c c' : Context α) : Bound → Bound → Prop
  | series {s s' : Source} (h : s.view c = s'.view c') : Sees c c' (.series s) (.series s')
  | number (n n' : Node) : Sees c c' (.number n) (.number n')
  | absent : Sees c c' .absent .absent

/-- Calls that stand for the same, each in its own context. -/
structure StudyCallOf.Sees (c c' : Context α) (k k' : StudyCall) : Prop where
  study : k'.study = k.study
  args : List.Forall₂ (Bound.Sees c c') k.args k'.args

namespace StudyCallOf.Sees

variable {c c' : Context α} {k k' : StudyCall}

theorem arity (h : k.Sees c c' k') : k'.arity = k.arity := by
  have hthird := rel_getElem? h.args 2
  unfold StudyCallOf.arity
  rw [h.study]
  generalize k.args[2]? = third at hthird
  generalize k'.args[2]? = third' at hthird
  cases hthird with
  | none => rfl
  | some hb => cases hb <;> cases k.study <;> rfl

theorem view (h : k.Sees c c' k') (i : Nat) :
    k'.args[i]?.bind (·.view? c') = k.args[i]?.bind (·.view? c) := by
  have hi := rel_getElem? h.args i
  generalize k.args[i]? = b at hi
  generalize k'.args[i]? = b' at hi
  cases hi with
  | none => rfl
  | some hb =>
    cases hb with
    | series hview => exact congrArg some hview.symm
    | number n n' => rfl
    | absent => rfl

end StudyCallOf.Sees

/-- In one context and under one handle, calls that see the same do the same. -/
theorem StudyCallOf.perform_eq {c : Context α} {k k' : StudyCall} (h : k.Sees c c k')
    (hhandle : k'.handle = k.handle) (nums : List α) : k'.perform nums c = k.perform nums c := by
  unfold perform
  simp only [h.study, h.arity, h.view, hhandle]

/-! ## The cache -/

section

variable {σ ι : Type} [Streaming σ ι α] [Cacheable σ α]

/-- Two caches after a call under the handles `h` and `h'`. -/
structure Cache.Answered (h h' : Nat) (c c' after after' : Cache α) : Prop where
  same : after.entries.find? h = after'.entries.find? h'
  others : ∀ i, i ≠ h → after.entries.find? i = c.entries.find? i
  others' : ∀ i, i ≠ h' → after'.entries.find? i = c'.entries.find? i

omit [Arith α] in
theorem Cache.Answered.insert {h h' : Nat} (c c' : Cache α) (e : CacheEntry α)
    {after after' : Cache α} (ha : after.entries = c.entries.insert h e)
    (ha' : after'.entries = c'.entries.insert h' e) : Answered h h' c c' after after' where
  same := by rw [ha, ha', Assoc.find?_insert_self, Assoc.find?_insert_self]
  others i hi := by rw [ha, Assoc.find?_insert_of_ne _ hi]
  others' i hi := by rw [ha', Assoc.find?_insert_of_ne _ hi]

theorem Cache.evaluate_congr {h h' : Nat} {c c' : Cache α}
    (hentry : c.entries.find? h = c'.entries.find? h') (kind : Kind) (inputs : View ι) (init : σ) :
    (c.evaluate h kind inputs init).1 = (c'.evaluate h' kind inputs init).1 ∧
      Answered h h' c c' (c.evaluate h kind inputs init).2 (c'.evaluate h' kind inputs init).2 := by
  have hwarm : (c'.warm? h' kind inputs.size : Option (CacheEntry α × σ)) =
      c.warm? h kind inputs.size := by
    unfold warm?
    rw [hentry]
  unfold evaluate
  rw [hwarm]
  cases inputs.current? with
  | none => exact ⟨rfl, hentry, fun _ _ => rfl, fun _ _ => rfl⟩
  | some x =>
    dsimp only
    cases (c.warm? h kind inputs.size : Option (CacheEntry α × σ)) with
    | none => exact ⟨rfl, .insert _ _ _ rfl rfl⟩
    | some es => exact ⟨rfl, .insert _ _ _ rfl rfl⟩

end

/-! ## Calls -/

/-- What two calls have given: the same values and lookback, and entries that are the same under
the handles of the calls. -/
structure Technical.Agree (t t' : Technical α) (handle handle' : Option Nat)
    (r r' : List α × Technical α) : Prop where
  values : r.1 = r'.1
  lookback : ∃ n, r.2.warmup = t.warmup.observe n ∧ r'.2.warmup = t'.warmup.observe n
  same : ∀ h h', handle = some h → handle' = some h' →
    r.2.cache.entries.find? h = r'.2.cache.entries.find? h'
  others : ∀ h, handle ≠ some h → r.2.cache.entries.find? h = t.cache.entries.find? h
  others' : ∀ h, handle' ≠ some h → r'.2.cache.entries.find? h = t'.cache.entries.find? h

/-- The indicators at the same bar of the same market, over two caches. -/
def Technical.Level (t t' : Technical α) : Prop :=
  ∃ cache warmup, t' = { t with cache := cache, warmup := warmup }

/-- The entries of two handles are the same. -/
def Technical.SameEntry (t t' : Technical α) (handle handle' : Option Nat) : Prop :=
  ∀ h h', handle = some h → handle' = some h' →
    t.cache.entries.find? h = t'.cache.entries.find? h'

namespace Technical

variable {t t' : Technical α} {handle : Option Nat} {f : Nat → Nat}

omit [Arith α] in
/-- A call that leaves the cache alone. -/
theorem Agree.observed {handle' : Option Nat} (hentry : t.SameEntry t' handle handle')
    {values : List α} (n : Nat) {r r' : List α × Technical α}
    (hr : r = (values, { t with warmup := t.warmup.observe n }))
    (hr' : r' = (values, { t' with warmup := t'.warmup.observe n })) :
    Agree t t' handle handle' r r' := by
  subst hr hr'
  exact ⟨rfl, ⟨n, rfl, rfl⟩, hentry, fun _ _ => rfl, fun _ _ => rfl⟩

theorem streaming_agree {σ ι : Type} [Streaming σ ι α] [Cacheable σ α] (hlevel : t.Level t')
    (hentry : t.SameEntry t' handle (handle.map f)) (kind : Kind) (inputs : View ι) (init : σ)
    (full : Unit → α) :
    let r := t.streaming handle kind inputs init full
    let r' := t'.streaming (handle.map f) kind inputs init full
    Agree t t' handle (handle.map f) ([r.1], r.2) ([r'.1], r'.2) := by
  obtain ⟨cache', warmup', rfl⟩ := hlevel
  obtain ⟨cache, warmup, snapshot, precision, useCache⟩ := t
  cases handle with
  | none => exact .observed hentry kind.lookback rfl rfl
  | some h =>
    cases useCache with
    | false => exact .observed hentry kind.lookback rfl rfl
    | true =>
      obtain ⟨hvalue, hanswered⟩ := Cache.evaluate_congr (hentry h (f h) rfl rfl) kind inputs init
      refine ⟨congrArg (fun x => [precision.apply x]) hvalue, ⟨kind.lookback, rfl, rfl⟩, ?_,
        fun i hi => hanswered.others i fun h => hi (congrArg some h.symm),
        fun i hi => hanswered.others' i fun h => hi (congrArg some h.symm)⟩
      rintro _ _ ⟨⟩ ⟨⟩
      exact hanswered.same

end Technical

/-- **Calls that see the same** give the same and leave the same under their handles. -/
theorem StudyCallOf.perform_sees {c c' : Context α} {k k' : StudyCall} (h : k.Sees c c' k')
    (hlevel : c.Level c') (f : Nat → Nat) (hhandle : k'.handle = k.handle.map f)
    (hentry : c.technical.SameEntry c'.technical k.handle k'.handle) (nums : List α) :
    c.technical.Agree c'.technical k.handle k'.handle (k.perform nums c) (k'.perform nums c') := by
  have hview := h.view
  have harity := h.arity
  have htechnical : c.technical.Level c'.technical := by
    obtain ⟨stores, cache, warmup, rfl⟩ := hlevel
    exact ⟨cache, warmup, rfl⟩
  obtain ⟨study, args, handle⟩ := k
  obtain ⟨study', args', handle'⟩ := k'
  obtain rfl : study' = study := h.study
  obtain rfl : handle' = handle.map f := hhandle
  unfold perform
  simp only [hview, harity]
  clear h hview
  generalize c.technical = t at *
  generalize c'.technical = t' at *
  cases study'
  case sma | ema | rma | rsi => exact t.streaming_agree htechnical hentry _ _ _ _
  case atr =>
    obtain ⟨cache, warmup, rfl⟩ := htechnical
    exact t.streaming_agree ⟨cache, warmup, rfl⟩ hentry _ _ _ _
  all_goals obtain ⟨cache, warmup, rfl⟩ := htechnical
  case vwap =>
    dsimp only
    split <;> exact .observed hentry _ rfl rfl
  all_goals exact .observed hentry _ rfl rfl

end BarScript
