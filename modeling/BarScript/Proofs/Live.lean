import BarScript.Proofs.Causality
import BarScript.Proofs.Session

/-!
# Live runs

A live session runs a script on the bars there are, and then, block after block, appends the bars of
the block and goes on with a run of as many bars (`Action.live`). However the bars are cut into
blocks, it does what one run on all of them does (`live_eq_run`): a visit sees only the bars up to
its own (`visits_over`), and the visits of the blocks are those of the whole (`visits_append`).
-/

namespace BarScript

variable {α : Type}

namespace Action

/-- For every block: appends its bars and runs the script compiled last over as many bars. -/
def follow (blocks : List (List (Bar α))) : List (Action α) :=
  blocks.flatMap fun block => block.map append ++ [run none (some block.length)]

/-- A run over all bars, followed by blocks of new bars. -/
def live (source : String) (blocks : List (List (Bar α))) : List (Action α) :=
  run (some source) none :: follow blocks

end Action

variable [Arith α]

/-! ## Bars that may be appended -/

/-- Bars of which each opens after those before it, and of which those after the first `n` pass the
check of a single bar. -/
structure Appendable (bars : List (Bar α)) (n : Nat) : Prop where
  ascending : bars.Pairwise (·.openTime < ·.openTime)
  checked : ∀ b ∈ bars.drop n, b.check = .ok ()

theorem Market.push_ok {m : Market α} {b : Bar α} (hcheck : b.check = .ok ())
    (hafter : ∀ a ∈ m.bars.toList, a.openTime < b.openTime) :
    m.push b = .ok ⟨m.bars.push b⟩ := by
  have hfault : b.fault? = none := by
    unfold Bar.check at hcheck
    split at hcheck
    · cases hcheck
    · assumption
  have hmarket : m.fault? b = none := by
    unfold Market.fault?
    rw [hfault]
    cases hback : m.bars.back? with
    | none => rfl
    | some newest =>
      have hlt := hafter newest (by
        rw [← Array.getLast?_toList] at hback
        exact List.mem_of_getLast? hback)
      exact if_neg (by omega)
  unfold Market.push
  rw [hmarket]

theorem Runner.session_append_ok {r : Runner α} {old block rest : List (Bar α)} {ctx : Context α}
    (actions : List (Action α)) (hold : r.market.bars.toList = old)
    (h : Appendable (old ++ (block ++ rest)) old.length) :
    r.session ctx (block.map .append ++ actions) =
      { r with market := ⟨(old ++ block).toArray⟩ }.session ctx actions := by
  induction block generalizing r old with
  | nil =>
    rw [List.append_nil, ← hold]
    rfl
  | cons b block ih =>
    have hcheck : b.check = .ok () := h.checked b (by simp)
    have hafter : ∀ a ∈ r.market.bars.toList, a.openTime < b.openTime := by
      intro a ha
      rw [hold] at ha
      exact (List.pairwise_append.1 h.ascending).2.2 a ha b (by simp)
    have hupdate : r.perform ctx (.append b) =
        (.ok (), ctx, { r with market := ⟨r.market.bars.push b⟩ }) := by
      simp only [perform, update, Market.push_ok hcheck hafter]
    have h' : Appendable ((old ++ [b]) ++ (block ++ rest)) (old ++ [b]).length := by
      refine ⟨by simpa using h.ascending, fun a ha => h.checked a ?_⟩
      simp only [List.drop_left'] at ha ⊢
      exact .tail _ ha
    rw [List.map_cons, List.cons_append, session_ok hupdate, ih (by simp [hold]) h']
    simp

/-! ## Blocks -/

/-- The session has ended as the visits have, in a context that differs in the market at most; after
a success not even in that. -/
structure SameEnd (a : SessionEnd α) (b : Except Failure Unit × Context α) : Prop where
  outcome : a.1 = b.1
  context : a.2.1 = { b.2 with market := a.2.1.market }
  market : b.1 = .ok () → a.2.1.market = b.2.market

namespace Runner

omit [Arith α] in
theorem window_none (m : Market α) : window m none = List.range' 0 m.size := by
  simp only [window, barRange, Option.getD_none]
  rw [show Nat.min m.size m.size = m.size from Nat.min_self _, Nat.sub_self, Nat.sub_zero]

omit [Arith α] in
theorem window_newest {m : Market α} {n k : Nat} (h : m.size = n + k) :
    window m (some k) = List.range' n k := by
  simp only [window, barRange, Option.getD_some, h]
  rw [show Nat.min k (n + k) = k from Nat.min_eq_left (by omega),
    show n + k - k = n by omega, show n + k - n = k by omega]

/-- A run that sees less of the market, and then actions that end as the other visits do, end as all
the visits do. -/
theorem sameEnd_run {r r' : Runner α} {ctx : Context α} {a : Action α} {as : List (Action α)}
    {p : Program} {all now : Market α} {first k rest : Nat}
    (hrun : r.perform ctx a =
      ((visits p (List.range' first k) { ctx with market := now }).1,
        (visits p (List.range' first k) { ctx with market := now }).2, r'))
    (htake : all.bars.toList.take (first + k) = now.bars.toList.take (first + k))
    (hnext : ∀ c, c.market = all → SameEnd (r'.session { c with market := now } as)
      (visits p (List.range' (first + k) rest) c)) :
    SameEnd (r.session ctx (a :: as))
      (visits p (List.range' first (k + rest)) { ctx with market := all }) := by
  have hstart : Context.Over all now { ctx with market := all } { ctx with market := now } :=
    ⟨rfl, rfl⟩
  have hlt : ∀ bar ∈ List.range' first k, bar < first + k :=
    fun bar hbar => (List.mem_range'_1.1 hbar).2
  obtain ⟨hout, hover⟩ := visits_over p htake hlt hstart
  rw [← List.range'_append_1, visits_append]
  revert hrun hout hover
  generalize visits p (List.range' first k) { ctx with market := all } = whole
  generalize visits p (List.range' first k) { ctx with market := now } = part
  obtain ⟨out, c⟩ := whole
  obtain ⟨out', c'⟩ := part
  rintro hrun rfl ⟨hm, rfl⟩
  cases out with
  | error failure =>
    rw [session_error hrun]
    exact ⟨rfl, rfl, fun h => by cases h⟩
  | ok _ =>
    rw [session_ok hrun]
    exact hnext c hm

theorem follow_sameEnd {script : CompiledScript} {all : List (Bar α)}
    {blocks : List (List (Bar α))} {r : Runner α} {ctx : Context α} {old : List (Bar α)}
    (hr : r.market.bars.toList = old) (hscript : r.compiled = some script)
    (hctx : ctx.market.bars.toList = old) (hall : old ++ blocks.flatten = all)
    (happ : Appendable all old.length) :
    SameEnd (r.session ctx (Action.follow blocks))
      (visits script.program (List.range' old.length blocks.flatten.length)
        { ctx with market := ⟨all.toArray⟩ }) := by
  induction blocks generalizing r ctx old with
  | nil =>
    have hmarket : ctx.market = ⟨all.toArray⟩ := by
      rw [← hall, List.flatten_nil, List.append_nil, ← hctx]
    exact ⟨rfl, rfl, fun _ => hmarket⟩
  | cons block blocks ih =>
    rw [List.flatten_cons] at hall
    subst hall
    let now : Market α := ⟨(old ++ block).toArray⟩
    let r' : Runner α := { r with market := now }
    have hscript' : r'.compiled = some script := hscript
    have hsize : now.size = old.length + block.length := by simp [now, Market.size]
    have hrun := runIn_none hscript' ctx (some block.length)
    rw [ran, runProgram_eq, window_newest hsize] at hrun
    have hfollow : Action.follow (block :: blocks) =
        block.map .append ++ .run none (some block.length) :: Action.follow blocks := by
      simp [Action.follow]
    rw [hfollow, List.flatten_cons, List.length_append, session_append_ok _ hr happ]
    -- at the bars of the block, the session sees of the market what the whole run sees
    refine sameEnd_run hrun (by simp [now, r', List.take_append]) fun c hc => ?_
    have hmarket : { c with market := now }.market.bars.toList = old ++ block := by simp [now]
    let kept : Runner α := { r' with compiled := some script }
    have h := ih (show kept.market.bars.toList = old ++ block by simp [kept, r', now]) rfl hmarket
      (by simp) (by
        refine ⟨happ.ascending, fun b hb => happ.checked b ?_⟩
        rw [List.length_append, ← List.drop_drop] at hb
        exact List.mem_of_mem_drop hb)
    have hwhole : { c with market := ⟨(old ++ (block ++ blocks.flatten)).toArray⟩ } = c :=
      (congrArg (fun m => { c with market := m }) hc).symm
    simpa only [hwhole, List.length_append] using h

/-- A source that does not compile ends a session on a fresh runner. -/
theorem runIn_fault {r : Runner α} {source : String} {failure : Failure} (hr : r.compiled = none)
    (h : BarScript.compile source = .error failure) (ctx : Context α) (count : Option Nat) :
    r.runIn ctx (some source) count = (.error failure, ctx, r) := by
  simp only [runIn, compile?, compile, hr, Option.any_none, Bool.false_eq_true, if_false, h]

/-- A live session on `old` bars ends as a run on these and the bars of its blocks. -/
theorem live_sameEnd {old : List (Bar α)} {blocks : List (List (Bar α))} (source : String)
    (useCache : Bool) (precision : Precision)
    (happ : Appendable (old ++ blocks.flatten) old.length) :
    let part := configured old useCache precision
    let whole := configured (old ++ blocks.flatten) useCache precision
    let run := whole.runIn whole.context (some source) none
    SameEnd (part.session part.context (Action.live source blocks)) (run.1, run.2.1) := by
  intro part whole run
  cases hcompile : BarScript.compile source with
  | error failure =>
    have hrun : run = (.error failure, whole.context, whole) := runIn_fault rfl hcompile _ _
    have hlive : part.perform part.context (.run (some source) none) =
        (.error failure, part.context, part) := runIn_fault rfl hcompile _ _
    rw [hrun, Action.live, session_error hlive]
    exact ⟨rfl, rfl, fun h => by cases h⟩
  | ok program =>
    have hold : Market.ofBars old = ⟨old.toArray⟩ :=
      Market.ofBars_ascending (happ.ascending.sublist (List.sublist_append_left _ _))
    have hall : Market.ofBars (old ++ blocks.flatten) = ⟨(old ++ blocks.flatten).toArray⟩ :=
      Market.ofBars_ascending happ.ascending
    have hrun : run = whole.ran ⟨source, program⟩ whole.context none :=
      runIn_some hcompile (.inl rfl) _ _
    have hlive : part.perform part.context (.run (some source) none) =
        part.ran ⟨source, program⟩ part.context none := runIn_some hcompile (.inl rfl) _ _
    have hsize : part.market.size = old.length := by
      simp [part, configured, ofBars, hold, Market.size]
    have hsizes : whole.market.size = old.length + blocks.flatten.length := by
      simp [whole, configured, ofBars, hall, Market.size]
    rw [ran, runProgram_eq, window_none, hsize] at hlive
    rw [hrun, ran, runProgram_eq, window_none, hsizes, Action.live]
    refine sameEnd_run hlive ?_ fun c hc => ?_
    · simp [part, whole, configured, ofBars, hold, hall]
    have hbars : { c with market := part.market }.market.bars.toList = old :=
      congrArg (·.bars.toList) hold
    have h := follow_sameEnd (r := { part with compiled := some ⟨source, program⟩ }) hbars rfl hbars
      rfl happ
    have hwhole : { c with market := ⟨(old ++ blocks.flatten).toArray⟩ } = c := by
      rw [← hall]
      exact (congrArg (fun m => { c with market := m }) hc).symm
    simpa only [Nat.zero_add, hwhole] using h

end Runner

/-- **Live equals batch.** However the bars after the first `n` are cut into blocks, the live
session ends as one run on all bars does: with the same outcome and, where that is a success, in the
same context. A failure leaves the same context over the bars that have been appended until then. -/
theorem live_eq_run {bars : List (Bar α)} {n : Nat} {blocks : List (List (Bar α))}
    (source : String) (useCache : Bool) (precision : Precision)
    (hascending : bars.Pairwise (·.openTime < ·.openTime))
    (hchecked : ∀ b ∈ bars.drop n, b.check = .ok ())
    (hblocks : blocks.flatten = bars.drop n) :
    let part := Runner.configured (bars.take n) useCache precision
    let live := part.session part.context (Action.live source blocks)
    let whole := Runner.configured bars useCache precision
    let run := whole.runIn whole.context (some source) none
    live.1 = run.1 ∧ live.2.1 = { run.2.1 with market := live.2.1.market } ∧
      (run.1 = .ok () → live.2.1 = run.2.1) := by
  intro part live whole run
  have hall : bars.take n ++ blocks.flatten = bars := by rw [hblocks, List.take_append_drop]
  have happ : Appendable (bars.take n ++ blocks.flatten) (bars.take n).length :=
    ⟨hall.symm ▸ hascending, by rwa [List.drop_left, hblocks]⟩
  have hend : SameEnd live (run.1, run.2.1) := by
    have h := Runner.live_sameEnd source useCache precision happ
    simp only [hall] at h
    exact h
  exact ⟨hend.outcome, hend.context, fun h => by rw [hend.context, hend.market h]⟩

/-- A run on one bar, followed by two blocks of one bar each. -/
theorem live_eq_run_three :
    let bars : List (Bar Float) :=
      [⟨0, 1, 2, 3, 1, 2, 5⟩, ⟨1, 2, 2, 4, 2, 4, 5⟩, ⟨2, 3, 4, 4, 3, 3, 5⟩]
    let blocks : List (List (Bar Float)) := [[⟨1, 2, 2, 4, 2, 4, 5⟩], [⟨2, 3, 4, 4, 3, 3, 5⟩]]
    let source := "var x = 0\nx := x + close\nreturn ta.ema(x, 2)"
    let part := Runner.configured (bars.take 1) true .standard
    let live := part.session part.context (Action.live source blocks)
    let whole := Runner.configured bars true .standard
    let run := whole.runIn whole.context (some source) none
    bars.Pairwise (·.openTime < ·.openTime) ∧ (∀ b ∈ bars.drop 1, b.check = .ok ()) ∧
      blocks.flatten = bars.drop 1 ∧ live.1 = run.1 ∧
      live.2.1 = { run.2.1 with market := live.2.1.market } ∧
      (run.1 = .ok () → live.2.1 = run.2.1) := by
  intro bars blocks source part live whole run
  have hascending : bars.Pairwise (·.openTime < ·.openTime) := by decide
  have hchecked : ∀ b ∈ bars.drop 1, b.check = .ok () := by
    intro b hb
    rcases List.mem_cons.1 hb with rfl | hb
    · rfl
    · obtain rfl := List.mem_singleton.1 hb
      rfl
  have hblocks : blocks.flatten = bars.drop 1 := rfl
  exact ⟨hascending, hchecked, hblocks,
    live_eq_run source true .standard hascending hchecked hblocks⟩

end BarScript
