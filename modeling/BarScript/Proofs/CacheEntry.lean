import Mathlib.Data.List.Basic
import BarScript.Indicator.Cache
import BarScript.Proofs.View

/-!
# What a cache entry stands for

`Follows kind init xs e`: the entry `e` is what the first inputs of the history `xs` have left of a
fresh state. That depends on the inputs consumed alone (`Follows.congr`), so a history may grow and
may change behind them. A call whose input begins the history gives the newest output of a replay,
warm or cold, if the entry of its handle follows the history or is of another kind, and the entry
that it leaves follows the history or is the one it found (`Cache.evaluate_spec`).
-/

namespace BarScript

variable {α σ ι : Type} [Streaming σ ι α] [Cacheable σ α]

/-- The entry is what the first inputs of a history have left of a fresh state. -/
structure Follows (kind : Nat → Kind) (init : Nat → σ) (xs : List ι) (e : CacheEntry α) : Prop where
  started : 0 < e.processed
  within : e.processed ≤ xs.length
  state : ∃ period, e.kind = kind period ∧
    e.state = Cacheable.wrap (feed (init period) (xs.take e.processed)).2

theorem Follows.congr {kind : Nat → Kind} {init : Nat → σ} {xs ys : List ι} {e : CacheEntry α}
    (h : Follows kind init xs e) (htake : ys.take e.processed = xs.take e.processed) :
    Follows kind init ys e where
  started := h.started
  within := by
    have hlen := congrArg List.length htake
    have hwithin := h.within
    simp only [List.length_take] at hlen
    omega
  state := by rw [htake]; exact h.state

namespace Cache

variable [Arith α]

omit [Arith α] in
theorem warm?_some {c : Cache α} {h size : Nat} {kind : Kind} {e : CacheEntry α} {s : σ}
    (hw : c.warm? h kind size = some (e, s)) :
    c.entries.find? h = some e ∧ e.kind = kind ∧ e.processed + 1 = size ∧
      Cacheable.unwrap e.state = some s := by
  unfold warm? at hw
  split at hw
  · rename_i e' hfind
    split at hw
    · rename_i hcond
      obtain ⟨s', hs', hpair⟩ := Option.map_eq_some_iff.1 hw
      cases hpair
      exact ⟨hfind, hcond.1, hcond.2, hs'⟩
    · cases hw
  · cases hw

omit [Arith α] in
/-- A state that is continued has consumed all inputs but the newest. -/
theorem warm?_follows {kind : Nat → Kind} {init : Nat → σ} {xs older : List ι} {x : ι}
    {c : Cache α} {h : Nat} {inputs : View ι} {period : Nat} (hkind : Function.Injective kind)
    (hbegins : inputs.toList <+: xs) (hx : inputs.toList = older ++ [x]) {e : CacheEntry α} {s : σ}
    (hw : c.warm? h (kind period) inputs.size = some (e, s))
    (hentry : ∀ e p, c.entries.find? h = some e → e.kind = kind p → Follows kind init xs e) :
    e.kind = kind period ∧ e.processed + 1 = inputs.size ∧ s = (feed (init period) older).2 := by
  obtain ⟨hfind, he, hprocessed, hs⟩ := warm?_some hw
  obtain ⟨period', hkind', hstate⟩ := (hentry e period hfind he).state
  obtain rfl : period' = period := hkind (hkind'.symm.trans he)
  have holder : xs.take e.processed = older := by
    obtain ⟨more, rfl⟩ := hbegins
    have hlength : e.processed = older.length := by
      rw [← View.length_toList, hx, List.length_append, List.length_singleton] at hprocessed
      omega
    rw [hx, List.append_assoc, hlength, List.take_left]
  rw [hstate, Cacheable.unwrap_wrap, Option.some.injEq, holder] at hs
  exact ⟨he, hprocessed, hs.symm⟩

/-- **A call through the cache.** -/
theorem evaluate_spec {kind : Nat → Kind} {init : Nat → σ} {xs : List ι} {c : Cache α} {h : Nat}
    {inputs : View ι} (period : Nat) (hkind : Function.Injective kind)
    (hbegins : inputs.toList <+: xs)
    (hentry : ∀ e p, c.entries.find? h = some e → e.kind = kind p → Follows kind init xs e) :
    (c.evaluate h (kind period) inputs (init period)).1 =
        lastValue (replay (init period) inputs.toList) ∧
      (∀ h', h' ≠ h → (c.evaluate h (kind period) inputs (init period)).2.entries.find? h' =
        c.entries.find? h') ∧
      ∀ e, (c.evaluate h (kind period) inputs (init period)).2.entries.find? h = some e →
        Follows kind init xs e ∨ c.entries.find? h = some e := by
  unfold evaluate
  cases hx : inputs.current? with
  | none =>
    rw [View.current?_eq, List.getLast?_eq_none_iff] at hx
    rw [hx]
    exact ⟨rfl, fun _ _ => rfl, fun _ => .inr⟩
  | some x =>
    rw [View.current?_eq] at hx
    obtain ⟨older, hx⟩ := List.getLast?_eq_some_iff.1 hx
    have hpos : 0 < inputs.size := by
      rw [← View.length_toList, hx, List.length_append]
      exact Nat.succ_pos _
    have hlen : inputs.size ≤ xs.length := by
      rw [← View.length_toList]
      exact hbegins.length_le
    have hall : xs.take inputs.size = inputs.toList := by
      rw [← View.length_toList]
      exact (List.prefix_iff_eq_take.1 hbegins).symm
    dsimp only
    cases hw : (c.warm? h (kind period) inputs.size : Option (CacheEntry α × σ)) with
    | none =>
      refine ⟨rfl, fun h' hne => Assoc.find?_insert_of_ne _ hne _, fun e he => ?_⟩
      simp only [recompute, Assoc.find?_insert_self, Option.some.injEq] at he
      subst he
      exact .inl ⟨hpos, hlen, period, rfl, by rw [hall]⟩
    | some es =>
      obtain ⟨e, s⟩ := es
      obtain ⟨he, hprocessed, rfl⟩ := warm?_follows hkind hbegins hx hw hentry
      have hfeed : feed (init period) (older ++ [x]) = _ := feed_append _ older [x]
      refine ⟨?_, fun h' hne => Assoc.find?_insert_of_ne _ hne _, fun e' he' => ?_⟩
      · rw [hx, replay, hfeed]
        simp [lastValue, continueWith, feed]
      · simp only [continueWith, Assoc.find?_insert_self, Option.some.injEq] at he'
        subst he'
        refine .inl ⟨Nat.succ_pos _, hprocessed.trans_le hlen, period, he, ?_⟩
        dsimp only
        rw [hprocessed, hall, hx, hfeed]
        rfl

end Cache

end BarScript
