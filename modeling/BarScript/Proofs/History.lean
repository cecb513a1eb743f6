import Mathlib.Data.List.Basic
import Mathlib.Data.List.Induction
import BarScript.Proofs.Session
import BarScript.Proofs.Trace

/-!
# The history of a slot

`held wss` is what a series holds when the lists `wss` have been written to it, one list a bar: for
every bar from the first write on, the last value written until its end (`ago_held`). The slots of a
program hold just that (`Processed.slot`), at any point of any bar of a run or of a session of runs
(`Runner.entered_processed`, `Runner.sessionEntered_processed`).
-/

namespace BarScript

/-! ## Series -/

section

variable {β : Type}

/-- The values of a series to which `wss` has been written, one list a bar. -/
def held (wss : List (List β)) : List β :=
  (List.range wss.length).filterMap fun i => (wss.take (i + 1)).flatten.getLast?

@[simp] theorem held_nil : held ([] : List (List β)) = [] := rfl

theorem held_concat (wss : List (List β)) (ws : List β) :
    held (wss ++ [ws]) = held wss ++ (wss.flatten ++ ws).getLast?.toList := by
  have htake : ∀ i ∈ List.range wss.length,
      ((wss ++ [ws]).take (i + 1)).flatten.getLast? = (wss.take (i + 1)).flatten.getLast? := by
    intro i hi
    rw [List.take_append_of_le_length (List.mem_range.1 hi)]
  have hlast : ((wss ++ [ws]).take (wss.length + 1)).flatten = wss.flatten ++ ws := by
    rw [List.take_of_length_le (by simp)]
    simp
  rw [held, List.length_append, List.length_singleton, List.range_succ, List.filterMap_append,
    List.filterMap_congr htake, ← held, List.filterMap_cons, hlast]
  cases (wss.flatten ++ ws).getLast? <;> rfl

/-- The value `k` bars ago is the last one written until the end of that bar. -/
theorem ago_held (wss : List (List β)) (k : Nat) :
    (held wss).reverse[k]? = (wss.take (wss.length - k)).flatten.getLast? := by
  induction wss using List.reverseRecOn generalizing k with
  | nil => simp
  | append_singleton wss ws ih =>
    rw [held_concat, List.reverse_append]
    cases hlast : (wss.flatten ++ ws).getLast? with
    | none =>
      -- nothing has been written at all
      have hnever : (wss ++ [ws]).flatten = [] := by simpa using List.getLast?_eq_none_iff.1 hlast
      have hnone : ∀ vss, vss ⊆ wss ++ [ws] → vss.flatten.getLast? = none := fun vss hsub =>
        List.getLast?_eq_none_iff.2 <| List.flatten_eq_nil_iff.2 fun l hl =>
          List.flatten_eq_nil_iff.1 hnever l (hsub hl)
      rw [hnone _ (List.take_subset _ _), Option.toList_none, List.reverse_nil, List.nil_append,
        ih, hnone _ fun l hl => List.mem_append_left _ (List.take_subset _ _ hl)]
    | some x =>
      cases k with
      | zero =>
        rw [Nat.sub_zero, List.take_length]
        simpa using hlast.symm
      | succ k =>
        rw [List.length_append, List.length_singleton, Nat.add_sub_add_right,
          List.take_append_of_le_length (Nat.sub_le _ _), ← ih k]
        simp

end

/-- Writes at one bar leave the last of them. -/
theorem Series.toList_foldl_setCurrent {β : Type} (s : Series β) (ws : List β) :
    (ws.foldl setCurrent s).toList = (match ws.getLast? with
      | some x => s.toList.dropLast ++ [x]
      | none => s.toList) := by
  induction ws using List.reverseRecOn with
  | nil => rfl
  | append_singleton ws x ih =>
    rw [List.foldl_append, List.foldl_cons, List.foldl_nil, toList_setCurrent, ih]
    cases ws.getLast? <;> simp

/-! ## Bars -/

variable {α : Type} [Arith α]

/-- The program has completed the bars that it entered in the contexts `cs`, starting with no
stores, and has left `st`. -/
inductive Processed (p : Program) : List (Context α) → Stores α → Prop
  | start : Processed p [] .empty
  | bar {cs : List (Context α)} {c c' : Context α} {out : StepOutput α}
      (before : Processed p cs c.stores) (step : p.step c = .ok out c') :
      Processed p (cs ++ [c]) c'.stores.shiftAll

/-- What the bars have written to a slot. -/
def writes (p : Program) (a : Bank × Nat) (cs : List (Context α)) : List (List α) :=
  cs.map fun c => given a (p.trace c)

namespace Processed

variable {p : Program} {cs : List (Context α)} {st : Stores α}

/-- **A slot** at a point of a bar at which `ws` has been written to it, after the bars `cs`. -/
theorem slot (h : Processed p cs st) (a : Bank × Nat) (ws : List α) :
    (ws.foldl Series.setCurrent (st.slot a)).toList = held (writes p a cs ++ [ws]) := by
  induction h generalizing ws with
  | start =>
    rw [Series.toList_foldl_setCurrent]
    have hempty : ((Stores.empty : Stores α).slot a).toList = [] := by
      obtain ⟨bank, id⟩ := a
      cases bank <;> rfl
    rw [hempty, writes, List.map_nil, held_concat]
    simp only [List.flatten_nil, List.nil_append, held_nil]
    cases ws.getLast? <;> rfl
  | @bar cs c c' out before step ih =>
    have hslot : (c'.stores.slot a).toList = held (writes p a (cs ++ [c])) := by
      rw [p.trace_faithful.stores step, Stores.slot_after, ih]
      simp [writes]
    have hnewest : (held (writes p a (cs ++ [c]))).getLast? =
        (writes p a (cs ++ [c])).flatten.getLast? := by
      rw [← List.head?_reverse, List.head?_eq_getElem?, ago_held, Nat.sub_zero, List.take_length]
    rw [Series.toList_foldl_setCurrent, Stores.slot_shiftAll, Series.toList_shift, hslot,
      held_concat, List.getLast?_append, hnewest]
    cases ws.getLast? with
    | none => rfl
    | some x =>
      cases hlast : (writes p a (cs ++ [c])).flatten.getLast? with
      | none => simp [List.getLast?_eq_none_iff.1 (hnewest.trans hlast)]
      | some y => simp

/-- The value `k` bars ago, at a point of a bar at which `ws` has been written. -/
theorem ago (h : Processed p cs st) (a : Bank × Nat) (ws : List α) (k : Nat) :
    (ws.foldl Series.setCurrent (st.slot a)).ago? k =
      ((writes p a cs ++ [ws]).take (cs.length + 1 - k)).flatten.getLast? := by
  rw [Series.ago?_eq, h.slot, ago_held, List.length_append, List.length_singleton, writes,
    List.length_map]

/-- The bars before one that has been entered have been completed, and so is this one. -/
theorem split (h : Processed p cs st) {t : Nat} {c : Context α} (hc : cs[t]? = some c) :
    Processed p (cs.take t) c.stores ∧ ∃ out c', p.step c = .ok out c' := by
  induction h with
  | start => cases hc
  | @bar cs c₀ c' out before step ih =>
    have hlen := (List.getElem?_eq_some_iff.1 hc).1
    rw [List.length_append, List.length_singleton] at hlen
    rw [List.take_append_of_le_length (by omega)]
    rcases Nat.lt_succ_iff_lt_or_eq.1 hlen with hlt | rfl
    · exact ih (by rwa [List.getElem?_append_left hlt] at hc)
    · rw [List.getElem?_append_right (Nat.le_refl _), Nat.sub_self] at hc
      cases hc
      rw [List.take_length]
      exact ⟨before, out, c', step⟩

end Processed

/-! ## Runs and sessions -/

namespace Runner

/-- The contexts in which a program enters some bars, until it fails at one of them. -/
def entered (p : Program) : List Nat → Context α → List (Context α)
  | [], _ => []
  | bar :: bars, ctx =>
    Engine.enter ctx bar ::
      match visits p [bar] ctx with
      | (.ok (), ctx) => entered p bars ctx
      | (.error _, _) => []

/-- The contexts in which the bars of an action are entered. -/
def enteredBy (r : Runner α) (ctx : Context α) : Action α → List (Context α)
  | .run source count =>
    match r.compile? source with
    | .error _ => []
    | .ok r => r.compiled.elim [] fun script =>
      entered script.program (window r.market count) { ctx with market := r.market }
  | .append _ => []
  | .caching _ => []

/-- The contexts in which the bars of a session are entered. -/
def sessionEntered (r : Runner α) (ctx : Context α) : List (Action α) → List (Context α)
  | [] => []
  | a :: as =>
    r.enteredBy ctx a ++
      match r.perform ctx a with
      | (.ok (), ctx, r) => r.sessionEntered ctx as
      | (.error _, _, _) => []

/-- One bar. -/
theorem visits_bar (p : Program) (bar : Nat) (ctx : Context α) :
    visits p [bar] ctx = match p.step (Engine.enter ctx bar) with
      | .ok out c => told (Engine.collect out (c, ()))
      | .error failure c => (.error failure, c) := by
  show told (EStateM.bind (EStateM.bind (alone p.step) Engine.collect) _ (Engine.enter ctx bar, ())) = _
  unfold EStateM.bind alone
  cases p.step (Engine.enter ctx bar) with
  | error failure c => rfl
  | ok out c =>
    dsimp only
    cases Engine.collect out (c, ()) <;> rfl

/-- A bar that does not fail steps the program, takes its output in and is completed. -/
theorem visits_one {p : Program} {bar : Nat} {ctx ctx' : Context α}
    (h : visits p [bar] ctx = (.ok (), ctx')) :
    ∃ out c results, p.step (Engine.enter ctx bar) = .ok out c ∧
      c.results.push c.bar out = .ok results ∧ ctx' = Engine.leave c results := by
  rw [visits_bar] at h
  cases hstep : p.step (Engine.enter ctx bar) with
  | error failure c => rw [hstep] at h; cases h
  | ok out c =>
    rw [hstep] at h
    dsimp only at h
    cases hpush : c.results.push c.bar out with
    | error failure => rw [Engine.collect_error hpush] at h; cases h
    | ok results =>
      rw [Engine.collect_ok hpush] at h
      cases h
      exact ⟨out, c, results, rfl, hpush, rfl⟩

/-- A run that does not fail completes its first bar and goes on from there. -/
theorem visits_cons {p : Program} {bar : Nat} {bars : List Nat} {ctx ctx' : Context α}
    (h : visits p (bar :: bars) ctx = (.ok (), ctx')) :
    ∃ out c results, p.step (Engine.enter ctx bar) = .ok out c ∧
      c.results.push c.bar out = .ok results ∧
      visits p bars (Engine.leave c results) = (.ok (), ctx') ∧
      entered p (bar :: bars) ctx =
        Engine.enter ctx bar :: entered p bars (Engine.leave c results) := by
  rw [← List.singleton_append, visits_append] at h
  cases hbar : visits p [bar] ctx with
  | mk outcome ctx₁ =>
    rw [hbar] at h
    cases outcome with
    | error failure => cases h
    | ok _ =>
      obtain ⟨out, c, results, hstep, hpush, rfl⟩ := visits_one hbar
      refine ⟨out, c, results, hstep, hpush, h, ?_⟩
      rw [entered, hbar]

/-- **A run** that does not fail completes the bars that it enters. -/
theorem entered_processed {p : Program} {bars : List Nat} {ctx ctx' : Context α}
    {cs : List (Context α)} (hcs : Processed p cs ctx.stores)
    (h : visits p bars ctx = (.ok (), ctx')) :
    Processed p (cs ++ entered p bars ctx) ctx'.stores := by
  induction bars generalizing ctx cs with
  | nil =>
    cases h
    simpa [entered] using hcs
  | cons bar bars ih =>
    obtain ⟨out, c, results, hstep, -, hrest, hentered⟩ := visits_cons h
    rw [hentered, List.append_cons]
    exact ih (Processed.bar hcs hstep) hrest

section

variable {source : String} {p : Program} {r r' : Runner α} {ctx ctx' : Context α}
variable {cs : List (Context α)}

/-- A run of a script visits the bars of its window. -/
theorem visits_of_ran (script : CompiledScript) (r : Runner α) (ctx : Context α)
    (count : Option Nat) :
    visits script.program (window r.market count) { ctx with market := r.market } =
      ((r.ran script ctx count).1, (r.ran script ctx count).2.1) := by
  rw [ran, runProgram_eq]

/-- So does a run of a source on a fresh context. -/
theorem visits_of_configured (hcompile : BarScript.compile source = .ok p) (bars : List (Bar α))
    (useCache : Bool) (precision : Precision) (count : Option Nat) :
    let r := configured bars useCache precision
    let run := r.runIn r.context (some source) count
    visits p (window r.market count) r.context = (run.1, run.2.1) := by
  intro r run
  have hrun : run = r.ran ⟨source, p⟩ r.context count := runIn_some hcompile (.inl rfl) _ _
  rw [hrun]
  exact visits_of_ran ⟨source, p⟩ r r.context count

theorem run_ok_iff {script : Option String} {count : Option Nat} :
    (r.run script count).1 = .ok ctx ↔
      (r.runIn r.context script count).1 = .ok () ∧ (r.runIn r.context script count).2.1 = ctx := by
  unfold run
  obtain ⟨outcome, c, r'⟩ := r.runIn r.context script count
  cases outcome <;> simp [Except.map]

theorem ran_processed (hcs : Processed p cs ctx.stores) (count : Option Nat)
    (h : r.ran ⟨source, p⟩ ctx count = (.ok (), ctx', r')) :
    Processed p (cs ++ entered p (window r.market count) { ctx with market := r.market })
      ctx'.stores ∧ r'.compiled = some ⟨source, p⟩ := by
  have hvisits := visits_of_ran ⟨source, p⟩ r ctx count
  rw [h] at hvisits
  refine ⟨entered_processed hcs hvisits, ?_⟩
  have hscript := congrArg (·.2.2.compiled) h
  exact hscript.symm

/-- An action of the session of a program. -/
theorem perform_processed (hcompile : BarScript.compile source = .ok p) {a : Action α}
    (ha : a.Of source) (hr : r.compiled = none ∨ r.compiled = some ⟨source, p⟩)
    (hcs : Processed p cs ctx.stores) (h : r.perform ctx a = (.ok (), ctx', r')) :
    Processed p (cs ++ r.enteredBy ctx a) ctx'.stores ∧
      (r'.compiled = none ∨ r'.compiled = some ⟨source, p⟩) := by
  cases a with
  | run source? count =>
    rw [perform] at h
    cases source? with
    | some source' =>
      obtain rfl : source' = source := ha
      rw [runIn_some hcompile hr] at h
      rw [enteredBy, compile?, compile_eq hcompile hr]
      exact (ran_processed hcs count h).imp id .inr
    | none =>
      rcases hr with hr | hr
      · rw [runIn_noScript hr] at h
        cases h
      · rw [runIn_none hr] at h
        rw [enteredBy, compile?]
        dsimp only
        rw [hr]
        exact (ran_processed hcs count h).imp id .inr
  | append b =>
    rw [perform] at h
    rw [enteredBy, List.append_nil]
    cases hb : r.update b with
    | error failure => rw [hb] at h; cases h
    | ok r₁ =>
      rw [hb] at h
      cases h
      rw [update_market hb]
      exact ⟨hcs, hr⟩
  | caching on =>
    cases h
    rw [enteredBy, List.append_nil]
    exact ⟨hcs, hr⟩

/-- **A session** of runs of one program that does not fail completes the bars that it enters. -/
theorem sessionEntered_processed (hcompile : BarScript.compile source = .ok p)
    {actions : List (Action α)} (hactions : ∀ a ∈ actions, a.Of source)
    (hr : r.compiled = none ∨ r.compiled = some ⟨source, p⟩) (hcs : Processed p cs ctx.stores)
    (h : r.session ctx actions = (.ok (), ctx', r')) :
    Processed p (cs ++ r.sessionEntered ctx actions) ctx'.stores := by
  induction actions generalizing r ctx cs with
  | nil =>
    cases h
    simpa [sessionEntered] using hcs
  | cons a as ih =>
    rw [session] at h
    cases hperform : r.perform ctx a with
    | mk outcome next =>
      obtain ⟨ctx₁, r₁⟩ := next
      rw [hperform] at h
      cases outcome with
      | error failure => cases h
      | ok _ =>
        obtain ⟨hcs₁, hr₁⟩ := perform_processed hcompile (hactions a (.head _)) hr hcs hperform
        rw [sessionEntered, hperform, ← List.append_assoc]
        exact ih (fun a ha => hactions a (.tail _ ha)) hr₁ hcs₁ h

end

end Runner

end BarScript
