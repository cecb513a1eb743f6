import BarScript.Proofs.Lockstep

/-!
# The bars of a run

A run of a program is a list of visits (`Runner.runProgram_eq`), visits of one list after another
are the visits of both (`Engine.visitAll_append`), and a simulation that holds between the bars is
kept by them (`Simulation.visitAll`).
-/

namespace BarScript

variable {α : Type} [Arith α]

namespace Engine

theorem visitAll_append {σ : Type} (step : RunM α σ (StepOutput α)) (xs ys : List Nat) :
    visitAll step (xs ++ ys) = (do visitAll step xs; visitAll step ys) := by
  induction xs with
  | nil => rfl
  | cons x xs ih =>
    rw [List.cons_append, visitAll, ih, visitAll]
    funext s
    show EStateM.bind _ _ _ = EStateM.bind (EStateM.bind _ _) _ _
    unfold EStateM.bind
    cases visit step x s <;> rfl

variable {σ : Type} {output : StepOutput α} {s : Context α × σ}

theorem collect_ok {results : Results α} (h : s.1.results.push s.1.bar output = .ok results) :
    collect output s = .ok () (leave s.1 results, s.2) := by
  have hget : (get : RunM α σ _) s = .ok s s := rfl
  unfold collect
  simp only [bind, EStateM.bind, hget, h]
  rfl

theorem collect_error {failure : Failure}
    (h : s.1.results.push s.1.bar output = .error failure) :
    collect output s = .error failure s := by
  have hget : (get : RunM α σ _) s = .ok s s := rfl
  unfold collect
  simp only [bind, EStateM.bind, hget, h]
  rfl

end Engine

namespace Runner

/-- What is told of a run that has no state of its own. -/
def told : EStateM.Result Failure (Context α × Unit) Unit → Except Failure Unit × Context α
  | .ok () s => (.ok (), s.1)
  | .error failure s => (.error failure, s.1)

/-- The visits of a program to some bars. -/
def visits (p : Program) (bars : List Nat) (ctx : Context α) : Except Failure Unit × Context α :=
  told (Engine.visitAll (alone p.step) bars (ctx, ()))

/-- Goes on from where a run has come to, unless it has stopped. -/
def andThen (run : Except Failure Unit × Context α)
    (next : Context α → Except Failure Unit × Context α) : Except Failure Unit × Context α :=
  match run with
  | (.ok (), ctx) => next ctx
  | (.error failure, ctx) => (.error failure, ctx)

theorem visits_append (p : Program) (xs ys : List Nat) (ctx : Context α) :
    visits p (xs ++ ys) ctx = andThen (visits p xs ctx) (visits p ys) := by
  unfold visits
  rw [Engine.visitAll_append]
  show told (EStateM.bind _ _ _) = _
  unfold EStateM.bind
  cases Engine.visitAll (alone p.step) xs (ctx, ()) <;> rfl

/-- The bars that a run of `count` bars visits. -/
def window (m : Market α) (count : Option Nat) : List Nat :=
  let (first, total) := barRange m.size count
  List.range' first (total - first)

theorem runProgram_eq (p : Program) (ctx : Context α) (count : Option Nat) :
    runProgram p ctx count = visits p (window ctx.market count) ctx := by
  have h : Engine.run (alone p.step) count (ctx, ()) =
      Engine.visitAll (alone p.step) (window ctx.market count) (ctx, ()) := rfl
  unfold runProgram visits
  rw [h]
  cases Engine.visitAll (alone p.step) (window ctx.market count) (ctx, ()) <;> rfl

end Runner

namespace Simulation

variable {R : List Effect → Context α → Context α → Prop} (hR : Simulation R)
include hR

theorem visit (p : Program) {Q : Context α → Context α → Prop} {bar : Nat} {c c' : Context α}
    (henter : R p.effects (Engine.enter c bar) (Engine.enter c' bar))
    (hleave : ∀ c c' results, R [] c c' → Q (Engine.leave c results) (Engine.leave c' results)) :
    Alike (fun s t => Q s.1 t.1) (fun s t => R [] s.1 t.1)
      (Engine.visit (Runner.alone p.step) bar (c, ()))
      (Engine.visit (Runner.alone p.step) bar (c', ())) := by
  have hstep : Alike (fun s t => R [] s.1 t.1) (fun s t => R [] s.1 t.1)
      (Runner.alone p.step (Engine.enter c bar, ()))
      (Runner.alone p.step (Engine.enter c' bar, ())) := by
    have h := hR.step p _ _ henter
    unfold Runner.alone
    revert h
    cases p.step (Engine.enter c bar) <;> cases p.step (Engine.enter c' bar) <;> exact id
  refine hstep.bind fun output s t h => ?_
  have hsame : t.1.results.push t.1.bar output = s.1.results.push s.1.bar output := by
    rw [hR.results h, hR.bar h]
  cases hpush : s.1.results.push s.1.bar output with
  | ok results =>
    rw [Engine.collect_ok hpush, Engine.collect_ok (hsame.trans hpush)]
    exact ⟨rfl, hleave _ _ results h⟩
  | error failure =>
    rw [Engine.collect_error hpush, Engine.collect_error (hsame.trans hpush)]
    exact ⟨rfl, h⟩

/-- **The bars of a run** do the same on both sides, if `Q` between bars becomes `R` at them. -/
theorem visitAll (p : Program) {Q : Context α → Context α → Prop} {bars : List Nat}
    (henter : ∀ bar ∈ bars, ∀ c c', Q c c' →
      R p.effects (Engine.enter c bar) (Engine.enter c' bar))
    (hleave : ∀ c c' results, R [] c c' → Q (Engine.leave c results) (Engine.leave c' results))
    {c c' : Context α} (h : Q c c') :
    Alike (fun s t => Q s.1 t.1) (fun s t => R [] s.1 t.1)
      (Engine.visitAll (Runner.alone p.step) bars (c, ()))
      (Engine.visitAll (Runner.alone p.step) bars (c', ())) := by
  induction bars generalizing c c' with
  | nil => exact ⟨rfl, h⟩
  | cons bar bars ih =>
    refine (hR.visit p (henter bar (.head _) _ _ h) hleave).bind fun _ s t hq => ?_
    exact ih (fun b hb => henter b (.tail _ hb)) hq

/-- The visits end in the same way, in contexts that `Q` relates or, after a failure, `R`. -/
theorem visits (p : Program) (bars : List Nat) {Q : Context α → Context α → Prop}
    (henter : ∀ bar ∈ bars, ∀ c c', Q c c' →
      R p.effects (Engine.enter c bar) (Engine.enter c' bar))
    (hleave : ∀ c c' results, R [] c c' → Q (Engine.leave c results) (Engine.leave c' results))
    {c c' : Context α} (h : Q c c') :
    (Runner.visits p bars c).1 = (Runner.visits p bars c').1 ∧
      ((Runner.visits p bars c).1 = .ok () ∧
          Q (Runner.visits p bars c).2 (Runner.visits p bars c').2 ∨
        (Runner.visits p bars c).1 ≠ .ok () ∧
          R [] (Runner.visits p bars c).2 (Runner.visits p bars c').2) := by
  have hv := hR.visitAll p henter hleave h
  unfold Runner.visits
  revert hv
  cases Engine.visitAll (Runner.alone p.step) bars (c, ()) <;>
    cases Engine.visitAll (Runner.alone p.step) bars (c', ()) <;> intro hv
  · exact ⟨rfl, .inl ⟨rfl, hv.2⟩⟩
  · exact hv.elim
  · exact hv.elim
  · exact ⟨congrArg Except.error hv.1, .inr ⟨by rintro ⟨⟩, hv.2⟩⟩

end Simulation

/-- A context on a market, beside itself. -/
theorem Simulation.sameMarket (m : Market α) :
    Simulation fun _ (c c' : Context α) => c' = c ∧ c.market = m where
  bar h := by rw [h.1]
  clock h k := by rw [h.1]
  price h p := by rw [h.1]
  stores h := by rw [h.1]
  outputs h := by rw [h.1]
  results h := by rw [h.1]
  skip h := h
  written h x := ⟨by rw [h.1], h.2⟩
  called h nums := ⟨by rw [h.1], by rw [h.1], h.2⟩
  drawn h o := ⟨by rw [h.1], h.2⟩

theorem Runner.visits_market (p : Program) (bars : List Nat) (ctx : Context α) :
    (visits p bars ctx).2.market = ctx.market := by
  obtain ⟨-, h⟩ := (Simulation.sameMarket ctx.market).visits p bars
    (Q := fun c c' => c' = c ∧ c.market = ctx.market) (fun _ _ _ _ h => ⟨by rw [h.1], h.2⟩)
    (fun _ _ _ h => ⟨by rw [h.1], h.2⟩) (c := ctx) ⟨rfl, rfl⟩
  rcases h with ⟨-, h⟩ | ⟨-, h⟩ <;> exact h.2

theorem Runner.runProgram_market (p : Program) (ctx : Context α) (count : Option Nat) :
    (runProgram p ctx count).2.market = ctx.market := by
  rw [runProgram_eq, visits_market]

end BarScript
