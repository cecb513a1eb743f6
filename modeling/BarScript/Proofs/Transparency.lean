import Mathlib
import BarScript.Arith.Double
import BarScript.Proofs.Coherence
import BarScript.Proofs.Resolution
import BarScript.Proofs.Uncached

/-!
# The cache changes nothing

A program is `Transparent` if its handles are distinct, its cached calls are no simple averages, and
nothing is written after a cached call has consumed it; a compiled program is as soon as no variable
that is the source of a cached call is reassigned after it (`compile_transparent`). Runs of such a
program keep contexts coherent, and so do new bars and switching the cache
(`Transparent.cacheBlind`). So a run does the same with the cache as without it
(`run_eq_uncached`), and so does any session (`session_eq_uncached`).
-/

namespace BarScript

variable {α : Type} [Arith α]

/-- No write and no second call can make an entry of the cache stale. -/
structure Transparent (p : Program) : Prop where
  distinct : (p.effects.filterMap Effect.handle?).Nodup
  fedFirst : FedFirst p.effects
  noMean : ∀ k, .call k ∈ p.effects → k.study ≠ .sma

theorem compile_transparent {source : String} {p : Program} (hcompile : compile source = .ok p)
    (hmean : ∀ k, .call k ∈ p.effects → k.study ≠ .sma) (hsettled : Settled p.ops) :
    Transparent p where
  distinct := by
    rw [compile_handles hcompile]
    exact List.nodup_range
  fedFirst := compile_fedFirst hcompile hsettled
  noMean := hmean

/-! ## Between runs -/

namespace Coherent

variable {evs : List Effect} {c c' : Context α}

theorem fresh (market : Market α) (precision : Precision) (useCache : Bool) :
    Coherent evs evs (Context.fresh market precision useCache)
      (Context.fresh market precision false) where
  pending := List.suffix_rfl
  same := rfl
  kept := nofun

theorem grow (h : Coherent evs evs c c') {m : Market α}
    (hm : c.market.bars.toList <+: m.bars.toList) :
    Coherent evs evs { c with market := m } { c' with market := m } where
  pending := h.pending
  same := by rw [h.same]
  kept n e he := by
    obtain ⟨k, hk, hh, hkeeps, hbehind⟩ := h.kept n e he
    exact ⟨k, hk, hh, hkeeps.congr hm fun _ _ => rfl, hbehind⟩

theorem switch (h : Coherent evs evs c c') (on : Bool) :
    Coherent evs evs { c with useCache := on } { c' with useCache := false } where
  pending := h.pending
  same := by rw [h.same]
  kept := h.kept

end Coherent

/-- Runs of a transparent program keep contexts coherent. -/
theorem Transparent.cacheBlind {source : String} {p : Program} (hp : Transparent p) :
    CacheBlind (· = ⟨source, p⟩) (Coherent p.effects p.effects : Context α → Context α → Prop) where
  same h := h.same
  grow h hm := h.grow hm
  switch on h := h.switch on
  run {s c c'} count hs h := by
    subst hs
    exact (Coherent.simulation hp.distinct hp.fedFirst hp.noMean).endsAlike p
      (fun bar _ _ h => h.enter bar) (fun _ _ results h => h.leave results) (fun _ _ h => h.same)
      (fun _ _ h => h.same) h count

/-! ## Sessions -/

omit [Arith α] in
theorem Action.Of.runs {source : String} {p : Program} (hcompile : compile source = .ok p)
    {a : Action α} (ha : a.Of source) : a.Runs (· = ⟨source, p⟩) := by
  cases a with
  | run source? count =>
    cases source? with
    | none => trivial
    | some source' =>
      obtain rfl : source' = source := ha
      intro p' hp'
      obtain rfl : p = p' := Except.ok.inj (hcompile.symm.trans hp')
      rfl
  | append b => trivial
  | caching on => trivial

/-- Two sessions of one script between their actions, the second without the cache. -/
abbrev Paired (source : String) (p : Program) : Runner α → Runner α → Context α → Context α → Prop :=
  Twin (· = ⟨source, p⟩) (Coherent p.effects p.effects)

section

variable {source : String} {p : Program} {r r' : Runner α} {c c' : Context α}

theorem Paired.ran (hp : Transparent p) (h : Paired source p r r' c c') (count : Option Nat) :
    SameSoFar (· = ⟨source, p⟩) (Coherent p.effects p.effects) (r.ran ⟨source, p⟩ c count)
      (r'.ran ⟨source, p⟩ c' count) :=
  Twin.ran hp.cacheBlind h rfl count

theorem Paired.session (hcompile : compile source = .ok p) (hp : Transparent p)
    (h : Paired source p r r' c c') {as : List (Action α)} (has : ∀ a ∈ as, a.Of source) :
    SameSoFar (· = ⟨source, p⟩) (Coherent p.effects p.effects) (r.session c as)
      (r'.session c' (as.map Action.uncached)) :=
  Twin.session hp.cacheBlind h fun a ha => (has a ha).runs hcompile

theorem Paired.start (bars : List (Bar α)) (useCache : Bool) (precision : Precision) :
    let r := Runner.configured bars useCache precision
    let r' := Runner.configured bars false precision
    Paired source p r r' r.context r'.context :=
  Twin.start Coherent.fresh bars useCache precision

end

/-! ## With the cache and without -/

/-- A variable that is reassigned before it is the source of a call, which is made from the second
bar on with a length that changes. -/
def lazySource : String :=
  "var x = 0\nx := x + close\ny = bar_index > 0 ? ta.ema(x, bar_index + 1) : ta.atr(2)\nreturn y"

def lazyProgram : Program :=
  ⟨[.init .states 0 (.number (.ofNat 0)),
    .set .states 0 (.binary .add (.read (.slot .states 0) none) (.read (.price .close) none)),
    .set .bindings 0 (.ternary (.binary .gt .barIndex (.number (.ofNat 0)))
      (.study ⟨.ema, [.series (.slot .states 0),
        .number (.binary .add .barIndex (.number (.ofNat 1)))], some 0⟩)
      (.study ⟨.atr, [.number (.number (.ofNat 2))], some 1⟩))],
    some (.single (.read (.slot .bindings 0) none)), ⟨4, 2, 0, 2⟩⟩

theorem compile_lazySource : compile lazySource = .ok lazyProgram := by
  have hparse : parse lazySource = .ok
      [.declare .persistent "x" (.number (.ofNat 0)) 0,
        .reassign "x" (.binary .add (.name "x" 15) (.name "close" 19)) 10,
        .declare .binding "y" (.ternary (.binary .gt (.name "bar_index" 29) (.number (.ofNat 0)))
          (.call ⟨"ta.ema", [⟨none, .name "x" 52, 52⟩,
            ⟨none, .binary .add (.name "bar_index" 55) (.number (.ofNat 1)), 55⟩], 45⟩)
          (.call ⟨"ta.atr", [⟨none, .number (.ofNat 2), 79⟩], 72⟩)) 25,
        .result (.single (.name "y" 89)) 82] := by with_unfolding_all rfl
  rw [compile, hparse]
  with_unfolding_all rfl

theorem lazyProgram_noMean : ∀ k, .call k ∈ lazyProgram.effects → k.study ≠ .sma := by
  intro k hk
  simp only [lazyProgram, Program.effects, Op.effects, Result.effects, Node.effects,
    Node.offsetEffects, Source.effects, Bound.allEffects, Bound.effects, List.flatMap_cons,
    List.flatMap_nil, Option.elim_some, List.nil_append, List.append_nil, List.cons_append,
    List.mem_cons, List.not_mem_nil, reduceCtorEq, Effect.call.injEq, false_or, or_false] at hk
  rcases hk with rfl | rfl <;> decide

/-- **A run with the cache** ends as the run without it: with the same outcome, results, stores and
outputs, if no variable that is the source of a cached call is assigned to by the instruction that
makes the call or by a later one. -/
theorem run_eq_uncached {source : String} {p : Program} (bars : List (Bar α))
    (precision : Precision) (count : Option Nat) (hcompile : compile source = .ok p)
    (hmean : ∀ k, .call k ∈ p.effects → k.study ≠ .sma) (hsettled : Settled p.ops) :
    let cached := Runner.configured bars true precision
    let plain := Runner.configured bars false precision
    let run := cached.runIn cached.context (some source) count
    let run' := plain.runIn plain.context (some source) count
    run.1 = run'.1 ∧ run.2.1.Uncached run'.2.1 := by
  intro cached plain run run'
  have h : Paired source p cached plain cached.context plain.context := .start _ _ _
  have hrun : run = cached.ran ⟨source, p⟩ cached.context count :=
    Runner.runIn_some hcompile (.inl rfl) _ _
  have hrun' : run' = plain.ran ⟨source, p⟩ plain.context count :=
    Runner.runIn_some hcompile (.inl rfl) _ _
  have hsame := h.ran (compile_transparent hcompile hmean hsettled) count
  rw [hrun, hrun']
  exact ⟨hsame.1, hsame.2.1⟩

theorem run_eq_uncached_lazy :
    let bars : List (Bar Float) :=
      [⟨0, 1, 2, 3, 1, 2, 5⟩, ⟨1, 2, 2, 4, 2, 4, 5⟩, ⟨2, 3, 4, 4, 3, 3, 5⟩]
    let cached := Runner.configured bars true .standard
    let plain := Runner.configured bars false .standard
    let run := cached.runIn cached.context (some lazySource) none
    let run' := plain.runIn plain.context (some lazySource) none
    compile lazySource = .ok lazyProgram ∧ Settled lazyProgram.ops ∧
      run.1 = run'.1 ∧ run.2.1.Uncached run'.2.1 := by
  intro bars cached plain run run'
  have hsettled : Settled lazyProgram.ops := by decide
  exact ⟨compile_lazySource, hsettled,
    run_eq_uncached bars .standard none compile_lazySource lazyProgram_noMean hsettled⟩

/-- A variable that is reassigned after it has been the source of a call. -/
def reassignedSource : String := "x = close\ny = ta.ema(x, 2)\nx := 10\nreturn y"

def reassignedProgram : Program :=
  ⟨[.set .bindings 0 (.read (.price .close) none),
    .set .bindings 1 (.study
      ⟨.ema, [.series (.slot .bindings 0), .number (.number (.ofNat 2))], some 0⟩),
    .set .bindings 0 (.number (.ofNat 10))],
    some (.single (.read (.slot .bindings 1) none)), ⟨4, 2, 0, 1⟩⟩

theorem compile_reassignedSource : compile reassignedSource = .ok reassignedProgram := by
  have hparse : parse reassignedSource = .ok
      [.declare .binding "x" (.name "close" 4) 0,
        .declare .binding "y" (.call ⟨"ta.ema",
          [⟨none, .name "x" 21, 21⟩, ⟨none, .number (.ofNat 2), 24⟩], 14⟩) 10,
        .reassign "x" (.number (.ofNat 10)) 27,
        .result (.single (.name "y" 42)) 35] := by with_unfolding_all rfl
  rw [compile, hparse]
  with_unfolding_all rfl

/-- The cache averages the two closes, and not the values that the variable has had. -/
theorem run_ne_uncached_reassigned :
    let bars : List (Bar Float) := [⟨0, 1, 2, 2, 2, 2, 5⟩, ⟨1, 2, 4, 4, 4, 4, 5⟩]
    let newest (useCache : Bool) : Option Float :=
      let r := Runner.configured bars useCache .standard
      ((r.runIn r.context (some reassignedSource) none).2.1.results.scalar?).bind (·.back?)
    newest true = some 3 ∧ newest false = some 7 := by
  intro bars newest
  have hmarket : Market.ofBars bars = ⟨bars.toArray⟩ := Market.ofBars_ascending (by decide)
  have hnewest : ∀ useCache, newest useCache =
      (Runner.runProgram reassignedProgram (.fresh ⟨bars.toArray⟩ .standard useCache)
        none).2.results.scalar?.bind (·.back?) := by
    intro useCache
    let r := Runner.configured bars useCache .standard
    have hscript : r.compiled = none ∨ r.compiled = some ⟨reassignedSource, reassignedProgram⟩ :=
      .inl rfl
    have hrun := Runner.runIn_some compile_reassignedSource hscript r.context none
    rw [← hmarket]
    exact congrArg (fun run => run.2.1.results.scalar?.bind (·.back?)) hrun
  rw [hnewest, hnewest]
  decide +kernel

/-- **A session with the cache**, switched on and off at will, ends as the session without it: with
the same outcome, results, stores and outputs. -/
theorem session_eq_uncached {source : String} {p : Program} {actions : List (Action α)}
    (bars : List (Bar α)) (useCache : Bool) (precision : Precision)
    (hcompile : compile source = .ok p) (hmean : ∀ k, .call k ∈ p.effects → k.study ≠ .sma)
    (hsettled : Settled p.ops) (hactions : ∀ a ∈ actions, a.Of source) :
    let cached := Runner.configured bars useCache precision
    let plain := Runner.configured bars false precision
    let s := cached.session cached.context actions
    let s' := plain.session plain.context (actions.map Action.uncached)
    s.1 = s'.1 ∧ s.2.1.Uncached s'.2.1 := by
  intro cached plain s s'
  have h : Paired source p cached plain cached.context plain.context := .start _ _ _
  have hsession := h.session hcompile (compile_transparent hcompile hmean hsettled) hactions
  exact ⟨hsession.1, hsession.2.1⟩

/-- The last two bars are run again after the cache has been off for one. -/
theorem session_eq_uncached_lazy :
    let bars : List (Bar Float) := [⟨0, 1, 2, 3, 1, 2, 5⟩, ⟨1, 2, 2, 4, 2, 4, 5⟩]
    let actions : List (Action Float) :=
      [.run (some lazySource) none, .append ⟨2, 3, 4, 4, 3, 3, 5⟩, .caching false,
        .run none (some 1), .caching true, .run (some lazySource) (some 2)]
    let cached := Runner.configured bars true .standard
    let plain := Runner.configured bars false .standard
    let s := cached.session cached.context actions
    let s' := plain.session plain.context (actions.map Action.uncached)
    compile lazySource = .ok lazyProgram ∧ Settled lazyProgram.ops ∧
      (∀ a ∈ actions, a.Of lazySource) ∧ s.1 = s'.1 ∧ s.2.1.Uncached s'.2.1 := by
  intro bars actions cached plain s s'
  have hsettled : Settled lazyProgram.ops := by decide
  have hactions : ∀ a ∈ actions, a.Of lazySource := by simp [actions, Action.Of]
  exact ⟨compile_lazySource, hsettled, hactions, session_eq_uncached bars true .standard
    compile_lazySource lazyProgram_noMean hsettled hactions⟩

end BarScript
