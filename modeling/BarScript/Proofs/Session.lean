import BarScript.Proofs.Visit

/-!
# Sessions

A session is a list of actions on a runner and a context: runs of a source or of the script compiled
last, new bars, and switching the cache. It ends with its first failure. What a single action does
is `Runner.perform`; `Runner.session_ok` goes on after an action that succeeds.
-/

namespace BarScript

/-- What is done in a session. -/
inductive Action (α : Type) where
  /-- A run of a source, or of the script compiled last, over the most recent bars. -/
  | run (source : Option String) (count : Option Nat)
  /-- A new bar. -/
  | append (bar : Bar α)
  /-- From now on the context uses the cache, or no more. -/
  | caching (on : Bool)

/-- The action runs no other source. -/
def Action.Of {α : Type} (source : String) : Action α → Prop
  | .run (some source') _ => source' = source
  | _ => True

/-- The end of a session: its outcome, the context and the runner. -/
abbrev SessionEnd (α : Type) := Except Failure Unit × Context α × Runner α

theorem Market.ofBars_ascending {α : Type} {bars : List (Bar α)}
    (h : bars.Pairwise (·.openTime < ·.openTime)) : Market.ofBars bars = ⟨bars.toArray⟩ := by
  have hle : bars.Pairwise fun a b => decide (a.openTime ≤ b.openTime) = true :=
    h.imp fun hab => decide_eq_true (Int.le_of_lt hab)
  rw [Market.ofBars, Market.sorted, List.mergeSort_of_pairwise hle]

namespace Runner

variable {α : Type}

/-- A runner on some bars. -/
def configured (bars : List (Bar α)) (useCache : Bool) (precision : Precision) : Runner α :=
  { ofBars bars with useCache := useCache, precision := precision }

variable [Arith α]

/-- One action. -/
def perform (r : Runner α) (ctx : Context α) : Action α → SessionEnd α
  | .run source count => r.runIn ctx source count
  | .append bar =>
    match r.update bar with
    | .ok r => (.ok (), ctx, r)
    | .error failure => (.error failure, ctx, r)
  | .caching on => (.ok (), { ctx with useCache := on }, r)

/-- Actions one after the other, until one fails. -/
def session (r : Runner α) (ctx : Context α) : List (Action α) → SessionEnd α
  | [] => (.ok (), ctx, r)
  | a :: as =>
    match r.perform ctx a with
    | (.ok (), ctx, r) => r.session ctx as
    | (.error failure, ctx, r) => (.error failure, ctx, r)

theorem session_ok {r r' : Runner α} {ctx ctx' : Context α} {a : Action α} {as : List (Action α)}
    (h : r.perform ctx a = (.ok (), ctx', r')) :
    r.session ctx (a :: as) = r'.session ctx' as := by
  rw [session, h]

theorem session_error {r r' : Runner α} {ctx ctx' : Context α} {a : Action α}
    {as : List (Action α)} {failure : Failure} (h : r.perform ctx a = (.error failure, ctx', r')) :
    r.session ctx (a :: as) = (.error failure, ctx', r') := by
  rw [session, h]

/-- The end of a run of a script that the runner keeps. -/
def ran (r : Runner α) (script : CompiledScript) (ctx : Context α) (count : Option Nat) :
    SessionEnd α :=
  let (outcome, ctx) := runProgram script.program { ctx with market := r.market } count
  (outcome, ctx, { r with compiled := some script })

/-- A run of the script compiled last. -/
theorem runIn_none {r : Runner α} {script : CompiledScript} (h : r.compiled = some script)
    (ctx : Context α) (count : Option Nat) : r.runIn ctx none count = r.ran script ctx count := by
  obtain ⟨market, compiled, useCache, precision⟩ := r
  obtain rfl : compiled = some script := h
  rfl

theorem runIn_noScript {r : Runner α} (h : r.compiled = none) (ctx : Context α)
    (count : Option Nat) : r.runIn ctx none count = (.error .noScript, ctx, r) := by
  simp only [runIn, compile?, h]

omit [Arith α] in
/-- Compiling a source that is compiled already changes nothing. -/
theorem compile_eq {r : Runner α} {source : String} {p : Program}
    (hcompile : BarScript.compile source = .ok p)
    (hscript : r.compiled = none ∨ r.compiled = some ⟨source, p⟩) :
    r.compile source = .ok { r with compiled := some ⟨source, p⟩ } := by
  obtain ⟨market, compiled, useCache, precision⟩ := r
  rcases hscript with rfl | rfl <;> simp [compile, hcompile]

/-- A run of a source that is the one compiled before, if there is one. -/
theorem runIn_some {r : Runner α} {source : String} {p : Program}
    (hcompile : BarScript.compile source = .ok p)
    (hscript : r.compiled = none ∨ r.compiled = some ⟨source, p⟩) (ctx : Context α)
    (count : Option Nat) : r.runIn ctx (some source) count = r.ran ⟨source, p⟩ ctx count := by
  simp only [runIn, compile?, compile_eq hcompile hscript, ran]

theorem update_market {r r' : Runner α} {b : Bar α} (h : r.update b = .ok r') :
    r' = { r with market := ⟨r.market.bars.push b⟩ } := by
  unfold update at h
  cases hpush : r.market.push b with
  | error failure => rw [hpush] at h; cases h
  | ok market =>
    rw [hpush] at h
    unfold Market.push at hpush
    split at hpush
    · cases hpush
    · cases hpush; cases h; rfl

end Runner

end BarScript
