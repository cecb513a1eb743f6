import BarScript.Proofs.Session
import BarScript.Proofs.Visit

/-!
# Sessions with the cache and without

`CacheBlind Good Q`: the relation `Q` holds of contexts that differ in the cache and its use only,
and runs of scripts in `Good`, new bars and switching the cache keep it. Then a session of such
scripts does the same with the cache as the session without it (`Twin.session`). A simulation
between the bars gives what has to be known of a run (`Simulation.endsAlike`).
-/

namespace BarScript

variable {α : Type} [Arith α]

omit [Arith α] in
/-- The same context, but for the cache, which the second does not use. -/
def Context.Uncached (c c' : Context α) : Prop :=
  c' = { c with cache := c'.cache, useCache := false }

/-- The action as it is without the cache. -/
def Action.uncached : Action α → Action α
  | .caching _ => .caching false
  | a => a

/-! ## Runs -/

/-- Runs that end in the same way, the second without the cache, and can go on after a success. -/
def EndsAlike (Q : Context α → Context α → Prop) (a b : Except Failure Unit × Context α) : Prop :=
  a.1 = b.1 ∧ a.2.Uncached b.2 ∧ (a.1 = .ok () → Q a.2 b.2)

theorem Simulation.endsAlike {R : List Effect → Context α → Context α → Prop} (hR : Simulation R)
    (p : Program) {Q : Context α → Context α → Prop}
    (henter : ∀ bar c c', Q c c' → R p.effects (Engine.enter c bar) (Engine.enter c' bar))
    (hleave : ∀ c c' results, R [] c c' → Q (Engine.leave c results) (Engine.leave c' results))
    (hsame : ∀ c c', R [] c c' → c.Uncached c') (hsame' : ∀ c c', Q c c' → c.Uncached c')
    {c c' : Context α} (h : Q c c') (count : Option Nat) :
    EndsAlike Q (Runner.runProgram p c count) (Runner.runProgram p c' count) := by
  have hmarket : c'.market = c.market := by rw [hsame' c c' h]
  obtain ⟨hout, hctx⟩ := hR.visits p (Runner.window c.market count)
    (fun bar _ c c' => henter bar c c') hleave h
  simp only [EndsAlike, Runner.runProgram_eq, hmarket]
  refine ⟨hout, ?_⟩
  rcases hctx with ⟨-, hq⟩ | ⟨hne, hr⟩
  · exact ⟨hsame' _ _ hq, fun _ => hq⟩
  · exact ⟨hsame _ _ hr, fun hok => absurd hok hne⟩

/-- A relation of contexts that no session of good scripts can tell apart, the second of which has no
use of the cache. -/
structure CacheBlind (Good : CompiledScript → Prop) (Q : Context α → Context α → Prop) : Prop where
  same : ∀ {c c'}, Q c c' → c.Uncached c'
  grow : ∀ {c c'} {m : Market α}, Q c c' → c.market.bars.toList <+: m.bars.toList →
    Q { c with market := m } { c' with market := m }
  switch : ∀ {c c'} (on : Bool), Q c c' →
    Q { c with useCache := on } { c' with useCache := false }
  run : ∀ {s c c'} (count : Option Nat), Good s → Q c c' →
    EndsAlike Q (Runner.runProgram s.program c count) (Runner.runProgram s.program c' count)

/-! ## Sessions -/

/-- Every source that the action runs is good once it compiles. -/
def Action.Runs (Good : CompiledScript → Prop) : Action α → Prop
  | .run (some source) _ => ∀ p, compile source = .ok p → Good ⟨source, p⟩
  | _ => True

/-- Two sessions between their actions, the second without the cache. -/
structure Twin (Good : CompiledScript → Prop) (Q : Context α → Context α → Prop)
    (r r' : Runner α) (c c' : Context α) : Prop where
  runner : r' = { r with useCache := r'.useCache }
  script : ∀ s, r.compiled = some s → Good s
  grown : c.market.bars.toList <+: r.market.bars.toList
  related : Q c c'

/-- Ends of two sessions that look the same, the second without the cache, and can go on if they are
no failures. -/
def SameSoFar (Good : CompiledScript → Prop) (Q : Context α → Context α → Prop)
    (s s' : SessionEnd α) : Prop :=
  s.1 = s'.1 ∧ s.2.1.Uncached s'.2.1 ∧
    (s.1 = .ok () → Twin Good Q s.2.2 s'.2.2 s.2.1 s'.2.1)

omit [Arith α] in
theorem Runner.compile?_useCache (r : Runner α) (on : Bool) (source? : Option String) :
    { r with useCache := on }.compile? source? =
      (r.compile? source?).map ({ · with useCache := on }) := by
  cases source? with
  | none => rfl
  | some source =>
    simp only [compile?, compile]
    split
    · rfl
    · cases BarScript.compile source <;> rfl

omit [Arith α] in
/-- Compiling touches the script only, which stays good. -/
theorem Runner.compile?_ok {Good : CompiledScript → Prop} {r r₁ : Runner α}
    {source? : Option String} (h : r.compile? source? = .ok r₁)
    (hgood : ∀ s, r.compiled = some s → Good s)
    (hsource : ∀ source p, source? = some source → BarScript.compile source = .ok p →
      Good ⟨source, p⟩) :
    r₁ = { r with compiled := r₁.compiled } ∧ ∀ s, r₁.compiled = some s → Good s := by
  cases source? with
  | none =>
    cases h
    exact ⟨rfl, hgood⟩
  | some source =>
    simp only [compile?, compile] at h
    split at h
    · cases h
      exact ⟨rfl, hgood⟩
    · cases hcompile : BarScript.compile source with
      | error failure => rw [hcompile] at h; cases h
      | ok p =>
        rw [hcompile] at h
        cases h
        refine ⟨rfl, ?_⟩
        rintro s ⟨⟩
        exact hsource source p rfl hcompile

section

variable {Good : CompiledScript → Prop} {Q : Context α → Context α → Prop}
variable {r r' : Runner α} {c c' : Context α}

theorem Twin.ran (hQ : CacheBlind Good Q) (h : Twin Good Q r r' c c') {s : CompiledScript}
    (hs : Good s) (count : Option Nat) : SameSoFar Good Q (r.ran s c count) (r'.ran s c' count) := by
  obtain ⟨hout, hsame, hrelated⟩ := hQ.run count hs (hQ.grow h.related h.grown)
  rw [h.runner]
  refine ⟨hout, hsame, fun hok => ⟨rfl, ?_, ?_, hrelated hok⟩⟩
  · rintro s' ⟨⟩
    exact hs
  · simp only [Runner.ran, Runner.runProgram_market, List.prefix_rfl]

theorem Twin.runIn (hQ : CacheBlind Good Q) (h : Twin Good Q r r' c c') {source? : Option String}
    (hsource : ∀ source p, source? = some source → compile source = .ok p → Good ⟨source, p⟩)
    (count : Option Nat) :
    SameSoFar Good Q (r.runIn c source? count) (r'.runIn c' source? count) := by
  have hcompile' : r'.compile? source? =
      (r.compile? source?).map ({ · with useCache := r'.useCache }) :=
    (congrArg (·.compile? source?) h.runner).trans (r.compile?_useCache _ _)
  unfold Runner.runIn
  rw [hcompile']
  cases hcompile : r.compile? source? with
  | error failure => exact ⟨rfl, hQ.same h.related, nofun⟩
  | ok r₁ =>
    obtain ⟨hr₁, hgood⟩ := Runner.compile?_ok hcompile h.script hsource
    have h₁ : Twin Good Q r₁ { r₁ with useCache := r'.useCache } c c' :=
      ⟨rfl, hgood, by rw [hr₁]; exact h.grown, h.related⟩
    simp only [Except.map]
    cases hscript : r₁.compiled with
    | none => exact ⟨rfl, hQ.same h.related, nofun⟩
    | some s =>
      have hran := h₁.ran hQ (hgood s hscript) count
      obtain ⟨market, compiled, useCache, precision⟩ := r₁
      obtain rfl : compiled = some s := hscript
      exact hran

/-- **An action** does the same with the cache and without. -/
theorem Twin.perform (hQ : CacheBlind Good Q) (h : Twin Good Q r r' c c') {a : Action α}
    (ha : a.Runs Good) : SameSoFar Good Q (r.perform c a) (r'.perform c' a.uncached) := by
  cases a with
  | run source? count =>
    refine h.runIn hQ ?_ count
    rintro source p rfl hcompile
    exact ha p hcompile
  | append b =>
    have hupdate : r'.update b = (r.update b).map ({ · with useCache := r'.useCache }) := by
      rw [h.runner]
      unfold Runner.update
      cases r.market.push b <;> rfl
    unfold Runner.perform Action.uncached
    dsimp only
    rw [hupdate]
    cases hb : r.update b with
    | error failure => exact ⟨rfl, hQ.same h.related, nofun⟩
    | ok r₁ =>
      have hr₁ := Runner.update_market hb
      refine ⟨rfl, hQ.same h.related, fun _ => ⟨rfl, ?_, ?_, h.related⟩⟩
      · rw [hr₁]
        exact h.script
      · rw [hr₁]
        exact h.grown.trans (by simp)
  | caching on =>
    have hrelated := hQ.switch on h.related
    exact ⟨rfl, hQ.same hrelated, fun _ => ⟨h.runner, h.script, h.grown, hrelated⟩⟩

/-- **Actions** do the same with the cache and without. -/
theorem Twin.session (hQ : CacheBlind Good Q) (h : Twin Good Q r r' c c') {as : List (Action α)}
    (has : ∀ a ∈ as, a.Runs Good) :
    SameSoFar Good Q (r.session c as) (r'.session c' (as.map Action.uncached)) := by
  induction as generalizing r r' c c' with
  | nil => exact ⟨rfl, hQ.same h.related, fun _ => h⟩
  | cons a as ih =>
    have hstep := h.perform hQ (has a (.head _))
    rw [List.map_cons, Runner.session, Runner.session]
    revert hstep
    generalize r.perform c a = s
    generalize r'.perform c' a.uncached = s'
    obtain ⟨out, c₁, r₁⟩ := s
    obtain ⟨out', c₁', r₁'⟩ := s'
    rintro ⟨rfl, hsame, htwin⟩
    cases out with
    | error failure => exact ⟨rfl, hsame, by rintro ⟨⟩⟩
    | ok _ => exact ih (htwin rfl) fun a ha => has a (.tail _ ha)

end

omit [Arith α] in
/-- A session starts on a fresh runner and a fresh context. -/
theorem Twin.start {Good : CompiledScript → Prop} {Q : Context α → Context α → Prop}
    (hfresh : ∀ (market : Market α) (precision : Precision) (useCache : Bool),
      Q (.fresh market precision useCache) (.fresh market precision false))
    (bars : List (Bar α)) (useCache : Bool) (precision : Precision) :
    let r := Runner.configured bars useCache precision
    let r' := Runner.configured bars false precision
    Twin Good Q r r' r.context r'.context :=
  ⟨rfl, nofun, List.prefix_rfl, hfresh _ _ _⟩

end BarScript
