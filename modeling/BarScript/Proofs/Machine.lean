import BarScript.Proofs.Session

/-!
# What a runner keeps

A runner keeps two things from one call to the next: its bars, and the source compiled last. Callers
compile, run, append bars and change the contexts they hold in any order (`Runner.Call`), and a call
may fail (`Runner.World.serve`).

* `Runner.Sound`: the bars are in the order of their opening, and the script that a runner keeps is
  the one its source compiles to. So a source that is reused runs as if it were compiled again
  (`Sound.runIn_ok`, `Sound.runIn_error`).
* `Runner.Grown`, `Runner.World.serve_grown`: what one call does to the two; `serveAll_grown` is
  the same for a list of calls.
* `Runner.World.Thinned`, `serveAll_thinned`: calls that failed before they could change anything
  may be left out.
-/

namespace BarScript

variable {α : Type}

namespace Runner

/-! ## Calls and answers -/

/-- What is asked of a runner, or done with one of the contexts that callers hold by number. -/
inductive Call (α : Type) where
  | compile (source : String)
  | run (source : Option String) (count : Option Nat)
  | runIn (id : Nat) (source : Option String) (count : Option Nat)
  | update (bar : Bar α)
  /-- A context for a run from the start. -/
  | context (id : Nat)
  /-- Whatever a caller does with a context. -/
  | change (id : Nat) (f : Context α → Context α)

/-- What a caller learns: how the call ended, and the context it is given or has handed in. -/
structure Answer (α : Type) where
  outcome : Except Failure Unit
  context : Option (Context α)

/-- A runner and the contexts that callers hold. -/
structure World (α : Type) where
  runner : Runner α
  contexts : Nat → Context α

/-- The source that a call brings along. -/
def Call.source? : Call α → Option String
  | compile source => some source
  | run source _ => source
  | runIn _ source _ => source
  | update _ => none
  | context _ => none
  | change _ _ => none

/-- Compiling and appending a bar; a failure of these is told before anything is changed. -/
def Call.prepares : Call α → Bool
  | compile _ => true
  | update _ => true
  | _ => false

namespace World

/-- Puts a context in the place of another. -/
def hold (w : World α) (id : Nat) (ctx : Context α) : World α :=
  { w with contexts := fun i => if i = id then ctx else w.contexts i }

variable [Arith α]

/-- One call. -/
def serve (w : World α) : Call α → Answer α × World α
  | .compile source =>
    match w.runner.compile source with
    | .ok r => (⟨.ok (), none⟩, { w with runner := r })
    | .error failure => (⟨.error failure, none⟩, w)
  | .run source count =>
    let ended := w.runner.run source count
    (⟨ended.1.map fun _ => (), ended.1.toOption⟩, { w with runner := ended.2 })
  | .runIn id source count =>
    let ended := w.runner.runIn (w.contexts id) source count
    (⟨ended.1, some ended.2.1⟩, { w.hold id ended.2.1 with runner := ended.2.2 })
  | .update bar =>
    match w.runner.update bar with
    | .ok r => (⟨.ok (), none⟩, { w with runner := r })
    | .error failure => (⟨.error failure, none⟩, w)
  | .context id => (⟨.ok (), some w.runner.context⟩, w.hold id w.runner.context)
  | .change id f => (⟨.ok (), some (f (w.contexts id))⟩, w.hold id (f (w.contexts id)))

/-- Calls one after the other, whether they succeed or fail, each with its answer. -/
def serveAll (w : World α) : List (Call α) → List (Call α × Answer α) × World α
  | [] => ([], w)
  | call :: calls =>
    let rest := (w.serve call).2.serveAll calls
    ((call, (w.serve call).1) :: rest.1, rest.2)

end World

/-- The bars that were appended, by a log of calls and answers. -/
def accepted (log : List (Call α × Answer α)) : List (Bar α) :=
  log.filterMap fun
    | (.update bar, ⟨.ok (), _⟩) => some bar
    | _ => none

/-- The last source that compiled among those of some calls; the one before them if there is
none. -/
def lastCompiled (calls : List (Call α)) (before : Option String) : Option String :=
  calls.foldl (fun last call =>
    match call.source? with
    | none => last
    | some source =>
      match BarScript.compile source with
      | .ok _ => some source
      | .error _ => last) before

/-! ## Sound runners -/

/-- What holds of a runner at any time. -/
structure Sound (r : Runner α) : Prop where
  script : ∀ script, r.compiled = some script →
    BarScript.compile script.source = .ok script.program
  ascending : r.market.bars.toList.Pairwise (·.openTime ≤ ·.openTime)

end Runner

theorem Market.sorted_pairwise (bars : List (Bar α)) :
    (Market.sorted bars).Pairwise (·.openTime ≤ ·.openTime) := by
  have h : (Market.sorted bars).Pairwise
      fun a b => decide (a.openTime ≤ b.openTime) = true :=
    List.pairwise_mergeSort (fun a b c hab hbc => by simp at hab hbc ⊢; omega)
      (fun a b => by simp; omega) bars
  exact h.imp of_decide_eq_true

theorem Market.sorted_perm (bars : List (Bar α)) : (Market.sorted bars).Perm bars :=
  List.mergeSort_perm _ _

theorem Market.ofBars_toList {m : Market α}
    (h : m.bars.toList.Pairwise (·.openTime ≤ ·.openTime)) : Market.ofBars m.bars.toList = m := by
  have hle : m.bars.toList.Pairwise fun a b => decide (a.openTime ≤ b.openTime) = true :=
    h.imp decide_eq_true
  rw [Market.ofBars, Market.sorted, List.mergeSort_of_pairwise hle]

/-- A bar that may be appended opens after all others. -/
theorem Market.push_after [Arith α] {m m' : Market α} {b : Bar α}
    (hsorted : m.bars.toList.Pairwise (·.openTime ≤ ·.openTime)) (h : m.push b = .ok m') :
    m' = ⟨m.bars.push b⟩ ∧ ∀ a ∈ m.bars.toList, a.openTime ≤ b.openTime := by
  unfold Market.push at h
  cases hfault : m.fault? b with
  | some fault => rw [hfault] at h; cases h
  | none =>
    rw [hfault] at h
    cases h
    refine ⟨rfl, fun a ha => ?_⟩
    obtain ⟨init, newest, hlist⟩ : ∃ init newest, m.bars.toList = init ++ [newest] :=
      ⟨_, _, (List.dropLast_append_getLast (List.ne_nil_of_mem ha)).symm⟩
    have hback : m.bars.back? = some newest := by
      rw [← Array.getLast?_toList, hlist, List.getLast?_concat]
    have hafter : newest.openTime < b.openTime := by
      unfold Market.fault? at hfault
      rw [hback] at hfault
      cases hown : b.fault? with
      | some fault => simp [hown] at hfault
      | none => simpa [hown] using hfault
    have hnewest : a.openTime ≤ newest.openTime := by
      rw [hlist] at ha hsorted
      rcases List.mem_append.1 ha with ha | ha
      · exact (List.pairwise_append.1 hsorted).2.2 a ha newest (by simp)
      · rw [List.mem_singleton.1 ha]
    exact Int.le_of_lt (Int.lt_of_le_of_lt hnewest hafter)

namespace Runner

theorem sound_configured (bars : List (Bar α)) (useCache : Bool) (precision : Precision) :
    (configured bars useCache precision).Sound where
  script script h := by cases h
  ascending := Market.sorted_pairwise bars

namespace Sound

variable {r : Runner α} (h : r.Sound)
include h

/-- Reusing the script compiled last is the same as compiling its source again. -/
theorem compile_ok {source : String} {p : Program} (hcompile : BarScript.compile source = .ok p) :
    r.compile source = .ok { r with compiled := some ⟨source, p⟩ } := by
  obtain ⟨market, compiled, useCache, precision⟩ := r
  cases compiled with
  | none => simp [compile, hcompile]
  | some script =>
    obtain ⟨source', p'⟩ := script
    by_cases hsource : source' = source
    · subst hsource
      obtain rfl : p' = p := by
        have hscript := h.script ⟨_, p'⟩ rfl
        rw [hcompile, Except.ok.injEq] at hscript
        exact hscript.symm
      simp [compile]
    · simp [compile, hsource, hcompile]

theorem compile_error {source : String} {failure : Failure}
    (hcompile : BarScript.compile source = .error failure) :
    r.compile source = .error failure := by
  have hnot : r.compiled.any (·.source == source) = false := by
    cases hscript : r.compiled with
    | none => rfl
    | some script =>
      have hsource : script.source ≠ source := by
        rintro rfl
        rw [h.script script hscript] at hcompile
        cases hcompile
      simpa using hsource
  simp [compile, hnot, hcompile]

/-- The source of the script that a runner keeps compiles to it. -/
theorem keep {source : String} {p : Program} (hcompile : BarScript.compile source = .ok p) :
    Sound { r with compiled := some ⟨source, p⟩ } where
  script script hscript := by
    cases hscript
    exact hcompile
  ascending := h.ascending

variable [Arith α]

theorem runIn_ok {source : String} {p : Program} (hcompile : BarScript.compile source = .ok p)
    (ctx : Context α) (count : Option Nat) :
    r.runIn ctx (some source) count = r.ran ⟨source, p⟩ ctx count := by
  simp only [runIn, compile?, h.compile_ok hcompile, ran]

theorem runIn_error {source : String} {failure : Failure}
    (hcompile : BarScript.compile source = .error failure) (ctx : Context α)
    (count : Option Nat) :
    r.runIn ctx (some source) count = (.error failure, ctx, r) := by
  simp only [runIn, compile?, h.compile_error hcompile]

/-- The last script is run as its source is. -/
theorem runIn_last {script : CompiledScript} (hscript : r.compiled = some script)
    (ctx : Context α) (count : Option Nat) :
    r.runIn ctx none count = r.runIn ctx (some script.source) count := by
  rw [runIn_none hscript, h.runIn_ok (h.script script hscript)]

omit [Arith α] in
theorem ofBars_market : Market.ofBars r.market.bars.toList = r.market :=
  Market.ofBars_toList h.ascending

/-- **A source runs as on a new runner** on the same bars. -/
theorem run_source (source : String) (count : Option Nat) :
    (r.run (some source) count).1 =
      ((configured r.market.bars.toList r.useCache r.precision).run (some source) count).1 := by
  have hnew := sound_configured r.market.bars.toList r.useCache r.precision
  have hmarket : (configured r.market.bars.toList r.useCache r.precision).market = r.market :=
    h.ofBars_market
  have hcontext : (configured r.market.bars.toList r.useCache r.precision).context =
      r.context := by
    rw [context, hmarket]
    rfl
  unfold run
  rw [hcontext]
  cases hcompile : BarScript.compile source with
  | error failure => rw [h.runIn_error hcompile, hnew.runIn_error hcompile]
  | ok p =>
    rw [h.runIn_ok hcompile, hnew.runIn_ok hcompile, ran, ran, hmarket]

end Sound

/-! ## One call -/

/-- The runner after a source has been compiled, if there is one and it compiles. -/
def recompiled (r : Runner α) : Option String → Runner α
  | none => r
  | some source =>
    match BarScript.compile source with
    | .ok p => { r with compiled := some ⟨source, p⟩ }
    | .error _ => r

theorem recompiled_ok (r : Runner α) {source : String} {p : Program}
    (h : BarScript.compile source = .ok p) :
    r.recompiled (some source) = { r with compiled := some ⟨source, p⟩ } := by
  simp [recompiled, h]

theorem recompiled_error (r : Runner α) {source : String} {failure : Failure}
    (h : BarScript.compile source = .error failure) : r.recompiled (some source) = r := by
  simp [recompiled, h]

/-- Compiling changes nothing but the script. -/
theorem recompiled_eq (r : Runner α) (source : Option String) :
    r.recompiled source = { r with compiled := (r.recompiled source).compiled } := by
  cases source with
  | none => rfl
  | some source =>
    cases hcompile : BarScript.compile source with
    | ok p => rw [recompiled_ok r hcompile]
    | error failure => rw [recompiled_error r hcompile]

theorem Sound.after {r : Runner α} (h : r.Sound) (source : Option String) :
    (r.recompiled source).Sound := by
  cases source with
  | none => exact h
  | some source =>
    cases hcompile : BarScript.compile source with
    | ok p => exact recompiled_ok r hcompile ▸ h.keep hcompile
    | error failure => exact (recompiled_error r hcompile).symm ▸ h

theorem recompiled_source (r : Runner α) (call : Call α) :
    (r.recompiled call.source?).compiled.map (·.source) =
      lastCompiled [call] (r.compiled.map (·.source)) := by
  simp only [lastCompiled, List.foldl_cons, List.foldl_nil]
  cases hsource : call.source? with
  | none => rfl
  | some source =>
    cases hcompile : BarScript.compile source with
    | ok p => simp [recompiled_ok r hcompile, hcompile]
    | error failure => simp [recompiled_error r hcompile, hcompile]

variable [Arith α]

theorem Sound.runIn_runner {r : Runner α} (h : r.Sound) (ctx : Context α) (source : Option String)
    (count : Option Nat) : (r.runIn ctx source count).2.2 = r.recompiled source := by
  cases source with
  | none =>
    cases hscript : r.compiled with
    | none => rw [runIn_noScript hscript]; rfl
    | some script =>
      rw [runIn_none hscript, ran, ← hscript]
      rfl
  | some source =>
    cases hcompile : BarScript.compile source with
    | ok p => simp only [h.runIn_ok hcompile, ran, recompiled_ok r hcompile]
    | error failure => simp only [h.runIn_error hcompile, recompiled_error r hcompile]

namespace World

theorem serve_update_ok {w : World α} {bar : Bar α} {r : Runner α}
    (h : w.runner.update bar = .ok r) :
    w.serve (.update bar) = (⟨.ok (), none⟩, { w with runner := r }) := by
  unfold serve
  simp only [h]

theorem serve_update_error {w : World α} {bar : Bar α} {failure : Failure}
    (h : w.runner.update bar = .error failure) :
    w.serve (.update bar) = (⟨.error failure, none⟩, w) := by
  unfold serve
  simp only [h]

theorem serve_compile_ok {w : World α} {source : String} {r : Runner α}
    (h : w.runner.compile source = .ok r) :
    w.serve (.compile source) = (⟨.ok (), none⟩, { w with runner := r }) := by
  unfold serve
  simp only [h]

theorem serve_compile_error {w : World α} {source : String} {failure : Failure}
    (h : w.runner.compile source = .error failure) :
    w.serve (.compile source) = (⟨.error failure, none⟩, w) := by
  unfold serve
  simp only [h]

/-- **One call** appends the bar it brings, or keeps the source it brings; either only if it is
accepted. -/
theorem serve_runner {w : World α} (h : w.runner.Sound) (call : Call α) :
    (w.serve call).2.runner = match call, (w.serve call).1.outcome with
      | .update bar, .ok () =>
        { w.runner with market := ⟨w.runner.market.bars.push bar⟩ }
      | call, _ => w.runner.recompiled call.source? := by
  cases call with
  | compile source =>
    cases hcompile : BarScript.compile source with
    | ok p =>
      rw [serve_compile_ok (h.compile_ok hcompile)]
      exact (recompiled_ok _ hcompile).symm
    | error failure =>
      rw [serve_compile_error (h.compile_error hcompile)]
      exact (recompiled_error _ hcompile).symm
  | run source count => exact h.runIn_runner w.runner.context source count
  | runIn id source count => exact h.runIn_runner (w.contexts id) source count
  | update bar =>
    cases hupdate : w.runner.update bar with
    | ok r => rw [serve_update_ok hupdate, update_market hupdate]
    | error failure => rw [serve_update_error hupdate]; rfl
  | context id => rfl
  | change id f => rfl

/-- Compiling and appending change nothing at all when they fail. -/
theorem serve_prepares_error {w : World α} {call : Call α} (hcall : call.prepares = true)
    {failure : Failure} (h : (w.serve call).1.outcome = .error failure) :
    (w.serve call).2 = w := by
  cases call with
  | compile source =>
    cases hcompile : w.runner.compile source with
    | ok r => rw [serve_compile_ok hcompile] at h; cases h
    | error failure => rw [serve_compile_error hcompile]
  | update bar =>
    cases hupdate : w.runner.update bar with
    | ok r => rw [serve_update_ok hupdate] at h; cases h
    | error failure => rw [serve_update_error hupdate]
  | run | runIn | context | change => cases hcall

omit [Arith α] in
theorem hold_same (w : World α) (id : Nat) : w.hold id (w.contexts id) = w := by
  have hcontexts : (fun i => if i = id then w.contexts id else w.contexts i) = w.contexts := by
    funext i
    by_cases h : i = id <;> simp [h]
  simp only [hold, hcontexts]

/-- A call whose source does not compile fails for that and changes nothing. -/
theorem serve_uncompiled {w : World α} (h : w.runner.Sound) {call : Call α} {source : String}
    (hsource : call.source? = some source) {failure : Failure}
    (hcompile : BarScript.compile source = .error failure) :
    (w.serve call).1.outcome = .error failure ∧ (w.serve call).2 = w := by
  cases call with
  | compile source' =>
    cases hsource
    rw [serve_compile_error (h.compile_error hcompile)]
    exact ⟨rfl, rfl⟩
  | run source' count =>
    obtain rfl : source' = some source := hsource
    simp [serve, run, h.runIn_error hcompile, Except.map]
  | runIn id source' count =>
    obtain rfl : source' = some source := hsource
    simp [serve, h.runIn_error hcompile, hold_same]
  | update | context | change => cases hsource

/-- A run without a script fails for that and changes nothing. -/
theorem serve_noScript {w : World α} (h : w.runner.compiled = none) {call : Call α}
    (hcall : ∃ count, call = .run none count ∨ ∃ id, call = .runIn id none count) :
    (w.serve call).1.outcome = .error .noScript ∧ (w.serve call).2 = w := by
  obtain ⟨count, rfl | ⟨id, rfl⟩⟩ := hcall
  · simp [serve, run, runIn_noScript h, Except.map]
  · simp [serve, runIn_noScript h, hold_same]

end World

/-! ## Many calls -/

/-- What some calls have made of a runner: it has the bars that were appended, and the last source
that compiled. -/
structure Grown (r r' : Runner α) (calls : List (Call α)) (bars : List (Bar α)) : Prop where
  sound : r'.Sound
  bars : r'.market.bars.toList = r.market.bars.toList ++ bars
  source : r'.compiled.map (·.source) = lastCompiled calls (r.compiled.map (·.source))
  useCache : r'.useCache = r.useCache
  precision : r'.precision = r.precision

omit [Arith α] in
theorem Grown.refl {r : Runner α} (h : r.Sound) : Grown r r [] [] :=
  ⟨h, by simp, rfl, rfl, rfl⟩

omit [Arith α] in
theorem Grown.trans {r r' r'' : Runner α} {calls calls' : List (Call α)} {bars bars' : List (Bar α)}
    (h : Grown r r' calls bars) (h' : Grown r' r'' calls' bars') :
    Grown r r'' (calls ++ calls') (bars ++ bars') where
  sound := h'.sound
  bars := by rw [h'.bars, h.bars, List.append_assoc]
  source := by rw [h'.source, h.source, lastCompiled, lastCompiled, lastCompiled, List.foldl_append]
  useCache := h'.useCache.trans h.useCache
  precision := h'.precision.trans h.precision

namespace World

theorem serveAll_cons (w : World α) (call : Call α) (calls : List (Call α)) :
    w.serveAll (call :: calls) =
      ((call, (w.serve call).1) :: ((w.serve call).2.serveAll calls).1,
        ((w.serve call).2.serveAll calls).2) := rfl

theorem serve_grown {w : World α} (h : w.runner.Sound) (call : Call α) :
    Grown w.runner (w.serve call).2.runner [call] (accepted [(call, (w.serve call).1)]) := by
  have hrunner := serve_runner h call
  by_cases hupdate : ∃ bar, call = .update bar ∧ (w.serve call).1.outcome = .ok ()
  · obtain ⟨bar, rfl, hok⟩ := hupdate
    cases hpush : w.runner.update bar with
    | error failure => rw [serve_update_error hpush] at hok; cases hok
    | ok r =>
      have hr := update_market hpush
      have hmarket : w.runner.market.push bar = .ok r.market := by
        unfold update at hpush
        cases hm : w.runner.market.push bar with
        | ok m => rw [hm] at hpush; cases hpush; rfl
        | error failure => rw [hm] at hpush; cases hpush
      have hafter := (Market.push_after h.ascending hmarket).2
      rw [serve_update_ok hpush, hr]
      refine ⟨⟨h.script, ?_⟩, by simp [accepted], rfl, rfl, rfl⟩
      rw [Array.toList_push, List.pairwise_append]
      exact ⟨h.ascending, List.pairwise_singleton _ _, by simpa using hafter⟩
  · have hkeeps : (w.serve call).2.runner = w.runner.recompiled call.source? := by
      rw [hrunner]
      split
      · exact absurd ⟨_, rfl, ‹_›⟩ hupdate
      · rfl
    have hnone : accepted [(call, (w.serve call).1)] = [] := by
      unfold accepted
      rw [List.filterMap_cons]
      split
      · rfl
      · rename_i bar hbar
        split at hbar
        · rename_i hpair
          obtain ⟨rfl, hanswer⟩ := Prod.mk.inj hpair
          exact absurd ⟨_, rfl, by rw [hanswer]⟩ hupdate
        · cases hbar
    have hsource := recompiled_source w.runner call
    rw [hkeeps, hnone]
    refine ⟨h.after _, ?_, hsource, ?_, ?_⟩
    all_goals rw [recompiled_eq]
    rw [List.append_nil]

omit [Arith α] in
theorem accepted_append (log log' : List (Call α × Answer α)) :
    accepted (log ++ log') = accepted log ++ accepted log' :=
  List.filterMap_append ..

/-- **Any calls**, of which some may fail. -/
theorem serveAll_grown {w : World α} (h : w.runner.Sound) (calls : List (Call α)) :
    Grown w.runner (w.serveAll calls).2.runner calls (accepted (w.serveAll calls).1) := by
  induction calls generalizing w with
  | nil => exact .refl h
  | cons call calls ih =>
    have hone := serve_grown h call
    have hrest := hone.trans (ih hone.sound)
    rwa [← accepted_append] at hrest

/-- A log of calls and answers without some of the calls that failed to compile or to append. -/
inductive Thinned : List (Call α × Answer α) → List (Call α × Answer α) → Prop
  | nil : Thinned [] []
  | keep {log log' : List (Call α × Answer α)} (entry : Call α × Answer α)
      (h : Thinned log log') : Thinned (entry :: log) (entry :: log')
  | drop {log log' : List (Call α × Answer α)} {call : Call α} {answer : Answer α}
      {failure : Failure} (hcall : call.prepares = true) (hfail : answer.outcome = .error failure)
      (h : Thinned log log') : Thinned ((call, answer) :: log) log'

/-- **What failed early may be left out**: the other calls get the answers they got, and lead to
the same runner and contexts. -/
theorem serveAll_thinned {w : World α} {calls : List (Call α)}
    {log : List (Call α × Answer α)} (h : Thinned (w.serveAll calls).1 log) :
    w.serveAll (log.map (·.1)) = (log, (w.serveAll calls).2) := by
  induction calls generalizing w log with
  | nil => cases h; rfl
  | cons call calls ih =>
    cases h with
    | keep entry h => rw [List.map_cons, serveAll_cons, serveAll_cons, ih h]
    | drop hcall hfail h =>
      have hsame := serve_prepares_error hcall hfail
      rw [serveAll_cons, hsame]
      rw [hsame] at h
      exact ih h

/-! ## What is kept -/

theorem run_last {r : Runner α} (h : r.Sound) (count : Option Nat) :
    (r.run none count).1 = match r.compiled.map (·.source) with
      | none => .error .noScript
      | some source => (r.run (some source) count).1 := by
  unfold run
  cases hscript : r.compiled with
  | none => rw [runIn_noScript hscript]; rfl
  | some script => rw [h.runIn_last hscript]; rfl

theorem runIn_told {r : Runner α} (h : r.Sound) (ctx : Context α) (count : Option Nat) :
    ((r.runIn ctx none count).1, (r.runIn ctx none count).2.1) =
      match r.compiled.map (·.source) with
      | none => (.error .noScript, ctx)
      | some source =>
        ((r.runIn ctx (some source) count).1, (r.runIn ctx (some source) count).2.1) := by
  cases hscript : r.compiled with
  | none => rw [runIn_noScript hscript]; rfl
  | some script => rw [h.runIn_last hscript]; rfl

/-- A call that fails leaves the bars alone, and it leaves the script alone unless it has brought a
source that compiles. -/
theorem serve_error {w : World α} (h : w.runner.Sound) {call : Call α} {failure : Failure}
    (hfail : (w.serve call).1.outcome = .error failure) :
    (w.serve call).2.runner = w.runner ∨
      ∃ source p, call.source? = some source ∧ BarScript.compile source = .ok p ∧
        (w.serve call).2.runner = { w.runner with compiled := some ⟨source, p⟩ } := by
  have hrunner : (w.serve call).2.runner = w.runner.recompiled call.source? := by
    rw [serve_runner h call]
    split
    · rename_i hok
      rw [hfail] at hok
      cases hok
    · rfl
  rw [hrunner]
  cases hsource : call.source? with
  | none => exact .inl rfl
  | some source =>
    cases hcompile : BarScript.compile source with
    | error failure => exact .inl (recompiled_error _ hcompile)
    | ok p => exact .inr ⟨source, p, rfl, hcompile, recompiled_ok _ hcompile⟩

/-- What holds after calls on a new runner for `bars`, with the log of the calls and the world `w`
that they lead to. -/
structure Kept (bars : List (Bar α)) (useCache : Bool) (precision : Precision)
    (contexts : Nat → Context α) (calls : List (Call α)) (log : List (Call α × Answer α))
    (w : World α) : Prop where
  market : w.runner.market.bars.toList = Market.sorted bars ++ accepted log
  sorted : (Market.sorted bars).Perm bars ∧
    (Market.sorted bars).Pairwise (·.openTime ≤ ·.openTime)
  settings : w.runner.useCache = useCache ∧ w.runner.precision = precision
  /-- A source runs as on a new runner. -/
  run_some : ∀ source count, (w.runner.run (some source) count).1 =
    ((configured w.runner.market.bars.toList useCache precision).run (some source) count).1
  run_none : ∀ count, (w.runner.run none count).1 = match lastCompiled calls none with
    | none => .error .noScript
    | some source => (w.runner.run (some source) count).1
  runIn_none : ∀ ctx count,
    ((w.runner.runIn ctx none count).1, (w.runner.runIn ctx none count).2.1) =
      match lastCompiled calls none with
      | none => (.error .noScript, ctx)
      | some source =>
        ((w.runner.runIn ctx (some source) count).1, (w.runner.runIn ctx (some source) count).2.1)
  /-- A failure changes the script only, and only for a source that compiles. -/
  failed : ∀ call failure, (w.serve call).1.outcome = .error failure →
    (w.serve call).2.runner = w.runner ∨
      ∃ source p, call.source? = some source ∧ BarScript.compile source = .ok p ∧
        (w.serve call).2.runner = { w.runner with compiled := some ⟨source, p⟩ }
  /-- A bar or a source that is rejected changes nothing, neither here nor in the contexts. -/
  rejected : ∀ call failure, call.prepares = true →
    (w.serve call).1.outcome = .error failure → (w.serve call).2 = w
  uncompiled : ∀ call source failure, call.source? = some source →
    BarScript.compile source = .error failure →
      (w.serve call).1.outcome = .error failure ∧ (w.serve call).2 = w
  noScript : lastCompiled calls none = none →
    ∀ call, (∃ count, call = .run none count ∨ ∃ id, call = .runIn id none count) →
      (w.serve call).1.outcome = .error .noScript ∧ (w.serve call).2 = w
  /-- Without what was rejected, the other calls get the answers they got. -/
  thinned : ∀ log', Thinned log log' →
    serveAll ⟨configured bars useCache precision, contexts⟩ (log'.map (·.1)) = (log', w)

/-- **A runner is its bars and the source compiled last.** Whatever was compiled, run, appended and
done with contexts, and whatever of it has failed, a run depends on nothing else. -/
theorem serveAll_kept (bars : List (Bar α)) (useCache : Bool) (precision : Precision)
    (contexts : Nat → Context α) (calls : List (Call α)) :
    let ended := serveAll ⟨configured bars useCache precision, contexts⟩ calls
    Kept bars useCache precision contexts calls ended.1 ended.2 := by
  intro ended
  have hstart := sound_configured bars useCache precision
  have hgrown : Grown _ ended.2.runner calls (accepted ended.1) :=
    serveAll_grown (w := ⟨_, contexts⟩) hstart calls
  have hsound := hgrown.sound
  have huse : ended.2.runner.useCache = useCache := hgrown.useCache
  have hprecision : ended.2.runner.precision = precision := hgrown.precision
  have hsource : ended.2.runner.compiled.map (·.source) = lastCompiled calls none := hgrown.source
  have hnew := hsound.run_source
  rw [huse, hprecision] at hnew
  have hlast := run_last hsound
  have hlastIn := runIn_told hsound
  rw [hsource] at hlast hlastIn
  refine ⟨hgrown.bars, ⟨Market.sorted_perm bars, Market.sorted_pairwise bars⟩, ⟨huse, hprecision⟩,
    hnew, hlast, hlastIn, fun _ _ => serve_error hsound,
    fun _ _ hcall => serve_prepares_error hcall,
    fun _ _ _ hbrings => serve_uncompiled hsound hbrings, fun hnone _ => ?_,
    fun _ => serveAll_thinned⟩
  refine serve_noScript ?_
  rw [hnone] at hsource
  exact Option.map_eq_none_iff.1 hsource

end World

end Runner

end BarScript
