import Mathlib
import BarScript.Arith.Double
import BarScript.Proofs.Coherence
import BarScript.Proofs.Uncached

/-!
# Scripts one after the other

Every script numbers its calls from zero, so on one context the calls of a script meet the entries
that earlier scripts have left. A call takes an entry for its own if handle and kind are the same.
`Compatible calls`: such calls consume the same price, so whichever of them has left an entry, it
follows what the next one consumes (`Shared`), and a session of any scripts with compatible calls
does the same with the cache as without it (`scripts_eq_uncached`). Calls that share a handle and an
indicator and consume different prices are not compatible: the entry of one is continued with the
price of the other (`scripts_ne_uncached_rma`).
-/

namespace BarScript

variable {α : Type} [Arith α]

/-- The price that an indicator call takes first, if it is one. -/
def StudyCallOf.price? (k : StudyCall) : Option Price :=
  let first : Option Bound := k.args[0]?
  match first with
  | some (.series (.price p)) => some p
  | _ => none

/-- The call is no simple average, and if it goes through the cache, it consumes a price or the
market itself. -/
def StudyCallOf.OfPrice (k : StudyCall) : Prop := k.study ≠ .sma ∧ (k.study.fed → k.price?.isSome)

/-- Calls that share a handle and an indicator consume the same price. -/
structure Compatible (calls : StudyCall → Prop) : Prop where
  ofPrice : ∀ k, calls k → k.OfPrice
  agree : ∀ k k', calls k → calls k' → k.handle = k'.handle → k.study = k'.study → k.study.fed →
    k.price? = k'.price?

/-! ## Calls -/

namespace StudyCallOf

variable {k k' : StudyCall} {c : Context α} {e : CacheEntry α}

theorem first_of_price {p : Price} (h : k.price? = some p) :
    k.args[0]? = some (.series (.price p)) := by
  unfold price? at h
  dsimp only at h
  split at h
  · rename_i p' hfirst
    cases h
    exact hfirst
  · cases h

theorem OfPrice.feed? (h : k.OfPrice) : k.feed? = none := by
  unfold StudyCallOf.feed?
  dsimp only
  split
  · rename_i s hfed hfirst
    obtain ⟨p, hp⟩ := Option.isSome_iff_exists.1 (h.2 hfed)
    rw [first_of_price hp] at hfirst
    cases hfirst
    rfl
  · rfl

theorem input_of_price {p : Price} (h : k.price? = some p) :
    k.input c = c.market.bars.toList.map p.ofBar := by
  unfold input
  dsimp only
  rw [first_of_price h]
  rfl

theorem Keeps.study (h : k.Keeps c e) : e.kind.study? = some k.study := by
  obtain ⟨study, args, handle⟩ := k
  unfold Keeps at h
  cases study
  case ema | rma | rsi | atr =>
    obtain ⟨period, hkind, -⟩ := h.state
    rw [hkind]
    rfl
  all_goals exact h.elim

/-- An entry follows every call of its indicator that consumes the same price. -/
theorem Keeps.agree (h : k.Keeps c e) (hstudy : k.study = k'.study) (hprice : k.OfPrice)
    (hagree : k.study.fed → k.price? = k'.price?) : k'.Keeps c e := by
  have hinput : k.study.fed → k'.input c = k.input c := by
    intro hfed
    obtain ⟨p, hp⟩ := Option.isSome_iff_exists.1 (hprice.2 hfed)
    rw [input_of_price hp, input_of_price ((hagree hfed).symm.trans hp)]
  unfold Keeps at h ⊢
  rw [← hstudy]
  generalize k.study = study at h hinput ⊢
  cases study
  case ema | rma | rsi =>
    rw [hinput rfl]
    exact h
  all_goals exact h

end StudyCallOf

/-! ## Contexts -/

/-- The contexts differ in the cache and its use only, and the second has no use of it. Every entry
of the first follows all calls that would take it for their own. -/
structure Shared (calls : StudyCall → Prop) (c c' : Context α) : Prop where
  same : c' = { c with cache := c'.cache, useCache := false }
  kept : ∀ n e k, c.cache.entries.find? n = some e → calls k → k.handle = some n →
    e.kind.study? = some k.study → k.Keeps c e

namespace Shared

variable {calls : StudyCall → Prop} {c c' : Context α}

theorem fresh (market : Market α) (precision : Precision) (useCache : Bool) :
    Shared calls (Context.fresh market precision useCache)
      (Context.fresh market precision false) where
  same := rfl
  kept _ _ _ he := nomatch he

theorem grow (h : Shared calls c c') {m : Market α}
    (hm : c.market.bars.toList <+: m.bars.toList) :
    Shared calls { c with market := m } { c' with market := m } where
  same := by rw [h.same]
  kept n e k he hk hh hkind := (h.kept n e k he hk hh hkind).congr hm fun _ _ => rfl

theorem switch (h : Shared calls c c') (on : Bool) :
    Shared calls { c with useCache := on } { c' with useCache := false } where
  same := by rw [h.same]
  kept := h.kept

/-- What is written is nothing that a call through the cache consumes. -/
theorem written (hcalls : Compatible calls) (h : Shared calls c c') (s : Stores α) :
    Shared calls { c with stores := s } { c' with stores := s } where
  same := by rw [h.same]
  kept n e k he hk hh hkind := by
    refine (h.kept n e k he hk hh hkind).congr List.prefix_rfl fun a ha => ?_
    rw [(hcalls.ofPrice k hk).feed?] at ha
    cases ha

theorem called (hcalls : Compatible calls) (h : Shared calls c c') {k : StudyCall} (hk : calls k)
    (nums : List α) :
    (k.perform nums c).1 = (k.perform nums c').1 ∧
      Shared calls (c.absorb (k.perform nums c).2) (c'.absorb (k.perform nums c').2) := by
  obtain ⟨cache, hperform, hothers, hfollows⟩ :=
    k.perform_coherent nums c'.cache (hcalls.ofPrice k hk).1
      fun n e hn he hkind => h.kept n e k he hk hn hkind
  rw [← h.same] at hperform
  rw [hperform]
  refine ⟨rfl, ?_, fun n e k' he hk' hh' hkind => ?_⟩
  · rw [h.same]; rfl
  -- the entry is the one found before, or the call has just left it
  have hbefore : c.cache.entries.find? n = some e → k'.Keeps c e :=
    fun he => h.kept n e k' he hk' hh' hkind
  by_cases hn : k.handle = some n
  · rcases hfollows n e hn he with hkeeps | hfound
    · have hstudy : k.study = k'.study := Option.some.inj (hkeeps.study.symm.trans hkind)
      exact hkeeps.agree hstudy (hcalls.ofPrice k hk)
        (hcalls.agree k k' hk hk' (hn.trans hh'.symm) hstudy)
    · exact hbefore hfound
  · exact hbefore ((hothers n hn).symm.trans he)

/-- **Evaluation** of calls that are compatible cannot tell the contexts apart. -/
theorem simulation (hcalls : Compatible calls) :
    Simulation fun es (c c' : Context α) => Shared calls c c' ∧ ∀ k, .call k ∈ es → calls k where
  bar h := by rw [h.1.same]
  clock h k := by rw [h.1.same]; rfl
  price h p := by rw [h.1.same]; rfl
  stores h := by rw [h.1.same]
  outputs h := by rw [h.1.same]
  results h := by rw [h.1.same]
  skip h := ⟨h.1, fun k hk => h.2 k (.tail _ hk)⟩
  written {b id es c c'} h x := by
    have hstores : c'.stores = c.stores := by rw [h.1.same]
    exact ⟨hstores ▸ h.1.written hcalls _, fun k hk => h.2 k (.tail _ hk)⟩
  called h nums := by
    obtain ⟨hvalue, hshared⟩ := h.1.called hcalls (h.2 _ (.head _)) nums
    exact ⟨hvalue, hshared, fun k hk => h.2 k (.tail _ hk)⟩
  drawn h o := ⟨⟨by rw [h.1.same], h.1.kept⟩, h.2⟩

/-- Runs of scripts with compatible calls keep contexts shared. -/
theorem cacheBlind (hcalls : Compatible calls) :
    CacheBlind (fun s => ∀ k, .call k ∈ s.program.effects → calls k)
      (Shared calls : Context α → Context α → Prop) where
  same h := h.same
  grow h hm := h.grow hm
  switch on h := h.switch on
  run {s c c'} count hs h := by
    refine (simulation hcalls).endsAlike s.program (fun bar c c' h => ⟨⟨?_, h.kept⟩, hs⟩)
      (fun c c' results h => ?_) (fun _ _ h => h.1.same) (fun _ _ h => h.same) h count
    · rw [h.same]; rfl
    · have hstores : c'.stores = c.stores := by rw [h.1.same]
      have hleft := h.1.written hcalls c.stores.shiftAll
      refine ⟨?_, hleft.kept⟩
      rw [h.1.same]
      rfl

end Shared

/-! ## Sessions -/

/-- The indicator calls of the scripts that a session runs. -/
def sessionCalls (actions : List (Action α)) (k : StudyCall) : Prop :=
  ∃ source count p, .run (some source) count ∈ actions ∧ compile source = .ok p ∧
    .call k ∈ p.effects

/-- **A session of any scripts** with compatible calls, of new bars and of switching the cache ends
as the session without the cache: with the same outcome, results, stores and outputs. -/
theorem scripts_eq_uncached {actions : List (Action α)} (bars : List (Bar α)) (useCache : Bool)
    (precision : Precision) (hcalls : Compatible (sessionCalls actions)) :
    let cached := Runner.configured bars useCache precision
    let plain := Runner.configured bars false precision
    let s := cached.session cached.context actions
    let s' := plain.session plain.context (actions.map Action.uncached)
    s.1 = s'.1 ∧ s.2.1.Uncached s'.2.1 := by
  intro cached plain s s'
  have hruns : ∀ a ∈ actions,
      a.Runs fun s => ∀ k, .call k ∈ s.program.effects → sessionCalls actions k := by
    intro a ha
    cases a with
    | run source? count =>
      cases source? with
      | none => trivial
      | some source => exact fun p hp k hk => ⟨source, count, p, ha, hp, hk⟩
    | append b => trivial
    | caching on => trivial
  have htwin : Twin (fun s => ∀ k, .call k ∈ s.program.effects → sessionCalls actions k)
      (Shared (sessionCalls actions)) cached plain cached.context plain.context :=
    .start Shared.fresh bars useCache precision
  have hsession := htwin.session (Shared.cacheBlind hcalls) hruns
  exact ⟨hsession.1, hsession.2.1⟩

/-- A call of an indicator over two bars of a price, with the first handle. -/
def firstCall (study : Study) (price : Price) : StudyCall :=
  ⟨study, [.series (.price price), .number (.number (.ofNat 2))], some 0⟩

/-- The program that returns the call. -/
def firstCallProgram (study : Study) (price : Price) : Program :=
  ⟨[], some (.single (.study (firstCall study price))), ⟨1, 0, 0, 1⟩⟩

theorem compile_rmaClose :
    compile "return ta.rma(close, 2)" = .ok (firstCallProgram .rma .close) := by
  with_unfolding_all rfl

theorem compile_rmaOpen :
    compile "return ta.rma(open, 2)" = .ok (firstCallProgram .rma .opening) := by
  with_unfolding_all rfl

theorem compile_emaOpen :
    compile "return ta.ema(open, 2)" = .ok (firstCallProgram .ema .opening) := by
  with_unfolding_all rfl

theorem mem_effects_firstCallProgram {study : Study} {price : Price} {k : StudyCall}
    (h : .call k ∈ (firstCallProgram study price).effects) : k = firstCall study price := by
  have heffects : (firstCallProgram study price).effects = [.call (firstCall study price)] := rfl
  rw [heffects, List.mem_singleton, Effect.call.injEq] at h
  exact h

/-- Two scripts that share a handle, but not the indicator; the first is run again at the end. -/
theorem scripts_eq_uncached_rma :
    let bars : List (Bar Float) := [⟨0, 1, 2, 6, 2, 6, 5⟩, ⟨1, 2, 4, 8, 4, 8, 5⟩]
    let actions : List (Action Float) :=
      [.run (some "return ta.rma(close, 2)") none, .append ⟨2, 3, 5, 9, 5, 9, 5⟩,
        .run (some "return ta.ema(open, 2)") (some 1), .append ⟨3, 4, 7, 9, 5, 6, 5⟩,
        .run (some "return ta.rma(close, 2)") (some 2)]
    let cached := Runner.configured bars true .standard
    let plain := Runner.configured bars false .standard
    let s := cached.session cached.context actions
    let s' := plain.session plain.context (actions.map Action.uncached)
    Compatible (sessionCalls actions) ∧ s.1 = s'.1 ∧ s.2.1.Uncached s'.2.1 := by
  intro bars actions cached plain s s'
  have hcalls : ∀ k, sessionCalls actions k →
      k = firstCall .rma .close ∨ k = firstCall .ema .opening := by
    rintro k ⟨source, count, p, hmem, hp, hk⟩
    have hsource : source = "return ta.rma(close, 2)" ∨ source = "return ta.ema(open, 2)" := by
      simp only [actions, List.mem_cons, Action.run.injEq, Option.some.injEq, reduceCtorEq,
        List.not_mem_nil, or_false, false_or] at hmem
      rcases hmem with h | h | h
      · exact .inl h.1
      · exact .inr h.1
      · exact .inl h.1
    rcases hsource with rfl | rfl
    · obtain rfl := Except.ok.inj (hp.symm.trans compile_rmaClose)
      exact .inl (mem_effects_firstCallProgram hk)
    · obtain rfl := Except.ok.inj (hp.symm.trans compile_emaOpen)
      exact .inr (mem_effects_firstCallProgram hk)
  have hcompatible : Compatible (sessionCalls actions) := by
    refine ⟨fun k hk => ?_, fun k k' hk hk' _ hstudy _ => ?_⟩
    · rcases hcalls k hk with rfl | rfl <;> exact ⟨by decide, fun _ => rfl⟩
    · rcases hcalls k hk with rfl | rfl <;> rcases hcalls k' hk' with rfl | rfl
      · rfl
      · cases hstudy
      · cases hstudy
      · rfl
  exact ⟨hcompatible, scripts_eq_uncached bars true .standard hcompatible⟩

/-- A script that averages the closes is followed by one that averages the opens: with the cache,
the third open continues the average of the first two closes. -/
theorem scripts_ne_uncached_rma :
    let bars : List (Bar Float) := [⟨0, 1, 2, 6, 2, 6, 5⟩, ⟨1, 2, 4, 8, 4, 8, 5⟩]
    let actions : List (Action Float) :=
      [.run (some "return ta.rma(close, 2)") none, .append ⟨2, 3, 5, 9, 5, 9, 5⟩,
        .run (some "return ta.rma(open, 2)") (some 1)]
    let newest (useCache : Bool) : Option Float :=
      let r := Runner.configured bars useCache .standard
      ((r.session r.context actions).2.1.results.scalar?).bind (·.back?)
    newest true = some 6 ∧ newest false = some 4 := by
  intro bars actions newest
  have hmarket : Market.ofBars bars = ⟨bars.toArray⟩ := Market.ofBars_ascending (by decide)
  have hnewest : ∀ useCache, newest useCache =
      ((Runner.session ⟨⟨bars.toArray⟩, none, useCache, .standard⟩
        (.fresh ⟨bars.toArray⟩ .standard useCache) actions).2.1.results.scalar?).bind (·.back?) := by
    intro useCache
    rw [← hmarket]
    rfl
  simp only [hnewest, actions, Runner.session, Runner.perform, Runner.runIn, Runner.compile?,
    Runner.compile, compile_rmaClose, compile_rmaOpen]
  decide +kernel

end BarScript
