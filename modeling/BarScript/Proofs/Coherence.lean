import BarScript.Proofs.CacheEntry
import BarScript.Proofs.Visit

/-!
# A cache that no result depends on

Two contexts that differ in the cache and in its use only are `Coherent` if every entry of the cache
follows what its call consumes (`StudyCallOf.Keeps`), and, for a call that is still to come at this
bar, is behind it (`StudyCallOf.Behind`): the current value of a slot may still be rewritten, the
others are frozen. Evaluation keeps that and gives the same values on both sides if the handles are
distinct and nothing is written after it has been consumed (`Coherent.simulation`). At the end of a
bar every slot grows, so all entries are behind again (`Coherent.leave`).
-/

namespace BarScript

variable {α : Type} [Arith α]

/-! ## Calls -/

namespace Technical

variable {σ ι : Type} [Streaming σ ι α] [Cacheable σ α]

/-- A streaming indicator with and without the cache, whose entry follows the input if it is of the
kind of the call. -/
theorem streaming_coherent {t : Technical α} {handle : Option Nat} {kind : Nat → Kind}
    {init : Nat → σ} {xs : List ι} {inputs : View ι} (unused : Cache α) (period : Nat)
    (full : Unit → α) (hkind : Function.Injective kind) (hbegins : inputs.toList <+: xs)
    (hfull : full () = lastValue (replay (init period) inputs.toList))
    (hentry : ∀ h e p, handle = some h → t.cache.entries.find? h = some e → e.kind = kind p →
      Follows kind init xs e) :
    let plain := { t with cache := unused, useCache := false }.streaming handle (kind period) inputs
      (init period) full
    ∃ cache : Cache α,
      t.streaming handle (kind period) inputs (init period) full =
        (plain.1, { plain.2 with cache := cache, useCache := t.useCache }) ∧
      (∀ h, handle ≠ some h → cache.entries.find? h = t.cache.entries.find? h) ∧
      ∀ h e, handle = some h → cache.entries.find? h = some e →
        Follows kind init xs e ∨ t.cache.entries.find? h = some e := by
  intro plain
  have hplain : plain =
      { t with cache := unused, useCache := false }.finish (kind period) (full ()) := by
    cases handle <;> rfl
  rw [hplain]
  cases handle with
  | none => exact ⟨t.cache, rfl, fun _ _ => rfl, nofun⟩
  | some h =>
    cases huse : t.useCache with
    | false =>
      refine ⟨t.cache, ?_, fun _ _ => rfl, fun _ _ _ => .inr⟩
      simp only [streaming, huse]
      simp [finish, ← huse]
    | true =>
      obtain ⟨hvalue, hothers, hfollows⟩ :=
        t.cache.evaluate_spec period hkind hbegins (fun e p => hentry h e p rfl)
      refine ⟨_, ?_, fun h' hne => hothers h' fun heq => hne (heq ▸ rfl), ?_⟩
      · simp only [streaming, huse, if_true, finish]
        rw [hvalue, ← hfull]
      · rintro _ e ⟨⟩ he
        exact hfollows e he

end Technical

/-- Everything that the series which a call consumes holds. -/
def StudyCallOf.input (k : StudyCall) (ctx : Context α) : List α :=
  let first : Option Bound := k.args[0]?
  match first with
  | some (.series s) => s.history ctx
  | _ => []

/-- What the average true range consumes of all bars. -/
def Context.reaches (ctx : Context α) : List (Reach α) :=
  ctx.market.bars.toList.map fun b => ⟨b.high, b.low, b.close⟩

/-- The entry follows what the call consumes. -/
def StudyCallOf.Keeps (k : StudyCall) (ctx : Context α) (e : CacheEntry α) : Prop :=
  match k.study with
  | .ema => Follows .ema (SmoothedState.ema : Nat → SmoothedState α) (k.input ctx) e
  | .rma => Follows .rma (SmoothedState.rma : Nat → SmoothedState α) (k.input ctx) e
  | .rsi => Follows .rsi (StrengthState.fresh : Nat → StrengthState α) (k.input ctx) e
  | .atr => Follows .atr (RangeState.fresh : Nat → RangeState α) ctx.reaches e
  | _ => False

theorem StudyCallOf.input_prefix (k : StudyCall) (ctx : Context α) :
    ((k.args[0]?.bind (·.view? ctx)).getD .empty).toList <+: k.input ctx := by
  unfold input
  dsimp only
  cases k.args[0]? with
  | none => exact List.nil_prefix
  | some b =>
    cases b with
    | series s => exact s.view_prefix ctx
    | number n => exact List.nil_prefix
    | absent => exact List.nil_prefix

theorem Technical.zip_prices (t : Technical α) :
    Reach.zip (t.prices .high) (t.prices .low) (t.prices .close) =
      (t.snapshot.view fun b => (⟨b.high, b.low, b.close⟩ : Reach α)).toList := by
  simp only [prices, Snapshot.price, Snapshot.toList_view]
  split
  · exact Reach.zip_map _ _ _ _
  · rfl

/-- The indicator whose calls through the cache are of a kind. -/
def Kind.study? : Kind → Option Study
  | .sma _ => some .sma
  | .ema _ => some .ema
  | .rma _ => some .rma
  | .rsi _ => some .rsi
  | .atr _ => some .atr
  | _ => none

/-- **A call** with and without the cache. -/
theorem StudyCallOf.perform_coherent (k : StudyCall) (nums : List α) {c : Context α}
    (unused : Cache α) (hsma : k.study ≠ .sma)
    (hentry : ∀ h e, k.handle = some h → c.cache.entries.find? h = some e →
      e.kind.study? = some k.study → k.Keeps c e) :
    let plain := k.perform nums { c with cache := unused, useCache := false }
    ∃ cache : Cache α,
      k.perform nums c = (plain.1, { plain.2 with cache := cache, useCache := c.useCache }) ∧
      (∀ h, k.handle ≠ some h → cache.entries.find? h = c.cache.entries.find? h) ∧
      ∀ h e, k.handle = some h → cache.entries.find? h = some e →
        k.Keeps c e ∨ c.cache.entries.find? h = some e := by
  intro plain
  obtain ⟨study, args, handle⟩ := k
  have hinput := StudyCallOf.input_prefix ⟨study, args, handle⟩ c
  let source : View α := (args[0]?.bind (·.view? c)).getD .empty
  let length (i : Nat) : Nat := lengthOf (nums.getD i Arith.nan)
  -- the three indicators of a source differ in their states only
  have fed {σ : Type} [Streaming σ α α] [Cacheable σ α] (kind : Nat → Kind) (init : Nat → σ)
      (hkind : Function.Injective kind)
      (hentry : ∀ h e p, handle = some h → c.cache.entries.find? h = some e → e.kind = kind p →
        Follows kind init (StudyCallOf.input ⟨study, args, handle⟩ c) e) :=
    c.technical.streaming_coherent unused (length 1)
      (fun _ => lastValue (replay (init (length 1)) source.toList)) hkind hinput rfl hentry
  cases study
  case sma => exact absurd rfl hsma
  case ema =>
    obtain ⟨cache, hvalue, hrest⟩ := fed .ema SmoothedState.ema (fun _ _ => Kind.ema.inj)
      fun h e p hh he hkind => hentry h e hh he (by rw [hkind]; rfl)
    exact ⟨cache, congrArg (fun r => ([r.1], r.2)) hvalue, hrest⟩
  case rma =>
    obtain ⟨cache, hvalue, hrest⟩ := fed .rma SmoothedState.rma (fun _ _ => Kind.rma.inj)
      fun h e p hh he hkind => hentry h e hh he (by rw [hkind]; rfl)
    exact ⟨cache, congrArg (fun r => ([r.1], r.2)) hvalue, hrest⟩
  case rsi =>
    obtain ⟨cache, hvalue, hrest⟩ := fed .rsi StrengthState.fresh (fun _ _ => Kind.rsi.inj)
      fun h e p hh he hkind => hentry h e hh he (by rw [hkind]; rfl)
    exact ⟨cache, congrArg (fun r => ([r.1], r.2)) hvalue, hrest⟩
  case atr =>
    obtain ⟨cache, hvalue, hrest⟩ := c.technical.streaming_coherent unused (length 0)
      (fun _ => lastValue (BarScript.atr (c.technical.prices .high) (c.technical.prices .low)
        (c.technical.prices .close) (length 0)))
      (fun _ _ => Kind.atr.inj) (c.snapshot.view_prefix _)
      (congrArg (fun rs => lastValue (replay _ rs)) c.technical.zip_prices)
      fun h e p hh he hkind => hentry h e hh he (by rw [hkind]; rfl)
    exact ⟨cache, congrArg (fun r => ([r.1], r.2)) hvalue, hrest⟩
  case vwap =>
    refine ⟨c.cache, ?_, fun _ _ => rfl, fun _ _ _ => .inr⟩
    simp only [plain, perform, Technical.vwap, Technical.vwapBands, Technical.finish]
    split <;> rfl
  all_goals exact ⟨c.cache, rfl, fun _ _ => rfl, fun _ _ _ => .inr⟩

theorem StudyCallOf.input_eq_slot {k : StudyCall} {a : Bank × Nat} (h : k.feed? = some a)
    (ctx : Context α) : k.input ctx = (ctx.stores.slot a).toList := by
  unfold feed? at h
  unfold input
  dsimp only at h ⊢
  split at h
  · rename_i s _ hfirst
    rw [hfirst]
    cases s <;> cases h <;> rfl
  · cases h

/-- The slot that the call consumes has more values than the entry has consumed. -/
def StudyCallOf.Behind (k : StudyCall) (ctx : Context α) (e : CacheEntry α) : Prop :=
  ∀ a, k.feed? = some a → e.processed < (ctx.stores.slot a).size

theorem StudyCallOf.Keeps.congr {k : StudyCall} {c c' : Context α} {e : CacheEntry α}
    (h : k.Keeps c e) (hmarket : c.market.bars.toList <+: c'.market.bars.toList)
    (hslot : ∀ a, k.feed? = some a → (c'.stores.slot a).toList.take e.processed =
      (c.stores.slot a).toList.take e.processed) : k.Keeps c' e := by
  have market : ∀ {ι : Type} (f : Bar α → ι), e.processed ≤ c.market.bars.toList.length →
      (c'.market.bars.toList.map f).take e.processed =
        (c.market.bars.toList.map f).take e.processed := by
    intro ι f hle
    obtain ⟨rest, hrest⟩ := hmarket
    rw [← hrest, List.map_append, List.take_append_of_le_length (by simpa using hle)]
  have input : k.study.fed → e.processed ≤ (k.input c).length →
      (k.input c').take e.processed = (k.input c).take e.processed := by
    intro hfed hle
    unfold input at hle ⊢
    dsimp only at hle ⊢
    split at hle
    · rename_i s hfirst
      have hfeed : k.feed? = s.slot? := by simp only [feed?, hfed, hfirst]
      cases s with
      | price p => exact market _ (by simpa [Source.history] using hle)
      | slot bank id => exact hslot _ hfeed
      | computed id value => exact hslot _ hfeed
    · rfl
  obtain ⟨study, args, handle⟩ := k
  unfold Keeps at h ⊢
  cases study
  case ema | rma | rsi => exact Follows.congr h (input rfl h.within)
  case atr => exact Follows.congr h (market _ (by simpa [Context.reaches] using h.within))
  all_goals exact h

theorem StudyCallOf.Keeps.within {k : StudyCall} {c : Context α} {e : CacheEntry α}
    (h : k.Keeps c e) {a : Bank × Nat} (ha : k.feed? = some a) :
    0 < e.processed ∧ e.processed ≤ (c.stores.slot a).size := by
  have hinput := input_eq_slot ha c
  obtain ⟨study, args, handle⟩ := k
  unfold Keeps at h
  rw [hinput] at h
  cases study
  case ema | rma | rsi => exact ⟨h.started, h.within⟩
  case atr => simp [feed?, Study.fed] at ha
  all_goals exact h.elim

/-! ## Contexts -/

/-- The contexts differ in the cache and its use only, and the second has no use of it. Every entry
of the first belongs to a call of `evs`; it follows what the call consumes and is behind it if the
call is among the effects `rest` that are still to come. -/
structure Coherent (evs rest : List Effect) (c c' : Context α) : Prop where
  pending : rest <:+ evs
  same : c' = { c with cache := c'.cache, useCache := false }
  kept : ∀ h e, c.cache.entries.find? h = some e →
    ∃ k, .call k ∈ evs ∧ k.handle = some h ∧ k.Keeps c e ∧ (.call k ∈ rest → k.Behind c e)

namespace Coherent

variable {evs rest es : List Effect} {c c' : Context α}

theorem skip {ef : Effect} (h : Coherent evs (ef :: es) c c') : Coherent evs es c c' where
  pending := (List.suffix_cons _ _).trans h.pending
  same := h.same
  kept n e he := by
    obtain ⟨k, hk, hh, hkeeps, hbehind⟩ := h.kept n e he
    exact ⟨k, hk, hh, hkeeps, fun hmem => hbehind (.tail _ hmem)⟩

/-- What is written now has not been consumed yet. -/
theorem written {bank : Bank} {id : Nat} (hfed : FedFirst evs)
    (h : Coherent evs (.set bank id :: es) c c') (x : α) :
    Coherent evs es { c with stores := c.stores.set bank id x }
      { c' with stores := c'.stores.set bank id x } where
  pending := h.skip.pending
  same := by rw [h.same]
  kept n e he := by
    obtain ⟨k, hk, hh, hkeeps, hbehind⟩ := h.kept n e he
    have hlater : k.feed? = some (bank, id) → .call k ∈ es := by
      intro hfeed
      obtain ⟨before, hbefore⟩ := h.pending
      rw [← hbefore] at hk hfed
      rcases List.mem_append.1 hk with hk | hk
      · exact ((List.pairwise_append.1 hfed).2.2 _ hk _ (.head _) hfeed).elim
      · exact (List.mem_cons.1 hk).resolve_left nofun
    have hlt : k.feed? = some (bank, id) → e.processed < (c.stores.slot (bank, id)).size :=
      fun hfeed => hbehind (.tail _ (hlater hfeed)) _ hfeed
    refine ⟨k, hk, hh, hkeeps.congr List.prefix_rfl fun a ha => ?_, fun hmem a ha => ?_⟩
    · show ((c.stores.set bank id x).slot a).toList.take e.processed = _
      rw [Stores.slot_set]
      split
      · rename_i heq
        subst heq
        exact Series.take_setCurrent (hlt ha) x
      · rfl
    · show e.processed < ((c.stores.set bank id x).slot a).size
      rw [Stores.slot_set]
      split
      · rename_i heq
        subst heq
        have := hlt ha
        rwa [Series.size_setCurrent (by omega)]
      · exact hbehind (.tail _ hmem) a ha

/-- A call is made once, so its entry need not be behind any more. -/
theorem called {k : StudyCall} (hdistinct : (evs.filterMap Effect.handle?).Nodup)
    (hsma : k.study ≠ .sma) (h : Coherent evs (.call k :: es) c c') (nums : List α) :
    (k.perform nums c).1 = (k.perform nums c').1 ∧
      Coherent evs es (c.absorb (k.perform nums c).2) (c'.absorb (k.perform nums c').2) := by
  obtain ⟨before, hbefore⟩ := h.pending
  have hk : .call k ∈ evs := hbefore ▸ List.mem_append_right _ (.head _)
  have hentry : ∀ n e, k.handle = some n → c.cache.entries.find? n = some e → k.Keeps c e := by
    intro n e hn he
    obtain ⟨k', hk', hh, hkeeps, -⟩ := h.kept n e he
    exact eq_of_handle hdistinct hk hk' hn hh ▸ hkeeps
  obtain ⟨cache, hperform, hothers, hfollows⟩ :=
    k.perform_coherent nums c'.cache hsma fun n e hn he _ => hentry n e hn he
  rw [← h.same] at hperform
  rw [hperform]
  refine ⟨rfl, h.skip.pending, ?_, fun n e he => ?_⟩
  · rw [h.same]; rfl
  · by_cases hn : k.handle = some n
    · refine ⟨k, hk, hn, (hfollows n e hn he).elim id (hentry n e hn), fun hmem => ?_⟩
      rw [← hbefore] at hdistinct
      exact absurd hmem (not_mem_of_handle hdistinct hn)
    · obtain ⟨k', hk', hh, hkeeps, hbehind⟩ := h.kept n e ((hothers n hn).symm.trans he)
      exact ⟨k', hk', hh, hkeeps, fun hmem => hbehind (.tail _ hmem)⟩

/-- **Evaluation** cannot tell coherent contexts apart and keeps them coherent. -/
theorem simulation (hdistinct : (evs.filterMap Effect.handle?).Nodup) (hfed : FedFirst evs)
    (hsma : ∀ k, .call k ∈ evs → k.study ≠ .sma) :
    Simulation (Coherent evs : List Effect → Context α → Context α → Prop) where
  bar h := by rw [h.same]
  clock h k := by rw [h.same]; rfl
  price h p := by rw [h.same]; rfl
  stores h := by rw [h.same]
  outputs h := by rw [h.same]
  results h := by rw [h.same]
  skip h := h.skip
  written h x := h.written hfed x
  called h nums := h.called hdistinct
    (hsma _ (h.pending.subset (.head _))) nums
  drawn h o := by
    exact ⟨h.pending, by rw [h.same], h.kept⟩

/-! ## Bars -/

/-- Between the bars, every entry is behind. -/
theorem enter (h : Coherent evs evs c c') (bar : Nat) :
    Coherent evs evs (Engine.enter c bar) (Engine.enter c' bar) where
  pending := h.pending
  same := by rw [h.same]; rfl
  kept := h.kept

theorem leave (h : Coherent evs [] c c') (results : Results α) :
    Coherent evs evs (Engine.leave c results) (Engine.leave c' results) where
  pending := List.suffix_rfl
  same := by rw [h.same]; rfl
  kept n e he := by
    obtain ⟨k, hk, hh, hkeeps, -⟩ := h.kept n e he
    refine ⟨k, hk, hh, hkeeps.congr List.prefix_rfl fun a ha => ?_, fun _ a ha => ?_⟩
    · show (c.stores.shiftAll.slot a).toList.take e.processed = _
      rw [Stores.slot_shiftAll, Series.toList_shift]
      exact List.take_append_of_le_length (hkeeps.within ha).2
    · show e.processed < (c.stores.shiftAll.slot a).size
      have hwithin := hkeeps.within ha
      rw [Stores.slot_shiftAll, Series.size_shift (by omega)]
      omega

end Coherent

end BarScript
