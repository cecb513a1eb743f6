import Mathlib
import BarScript.Arith.Double
import BarScript.Proofs.History
import BarScript.Proofs.Resolution

/-!
# The history of a computed series

A computed series is carried from bar to bar, and written when evaluation reaches it, at most once a
bar. So an indicator call or a history access that reads it finds the value that it was given last at
each bar (`SeriesAt.last`), and the true history of the expression if evaluation has reached it at
every bar (`SeriesAt.history`). Evaluation may pass it by, and then the value of an earlier bar
stands for the one that the expression would have had (`computed_history_passed_by`).
-/

namespace BarScript

variable {α : Type} [Arith α]

/-- What a view of the computed series `id` shows at bar `t` of the bars that were entered in `cs`. -/
structure SeriesAt (p : Program) (id : Nat) (cs : List (Context α)) (t : Nat) (v : View α) :
    Prop where
  /-- Every element is the value that the series was given last, until that bar. -/
  last : ∀ k, v.ago? k = (writes p (.computed, id) (cs.take (t + 1 - k))).flatten.getLast?
  /-- If the series was given a value at every bar, every element is the value of its own bar. -/
  history : (∀ e ∈ cs.take (t + 1), given (.computed, id) (p.trace e) ≠ []) →
    ∀ k ≤ t, ∃ e x, cs[t - k]? = some e ∧ given (.computed, id) (p.trace e) = [x] ∧
      v.ago? k = some x
  beyond : ∀ k, t < k → v.ago? k = none

theorem Processed.seriesAt {p : Program} {cs : List (Context α)} {st : Stores α}
    (hp : Processed p cs st) (hcomputed : (p.effects.filterMap Effect.computed?).Nodup) {t : Nat}
    {c : Context α} (hc : cs[t]? = some c) {id : Nat} {n : Node} {v : View α}
    (hsaw : .saw (.computed id n) v ∈ p.trace c) : SeriesAt p id cs t v := by
  have honce := fun e => p.trace_faithful.given_length_le hcomputed id (e : Context α)
  have hlt := (List.getElem?_eq_some_iff.1 hc).1
  obtain ⟨before, rest, htrace⟩ := List.append_of_mem hsaw
  obtain ⟨hslot, hwritten⟩ := p.trace_faithful.shown htrace
  -- the only value of this bar has been written before the series is read
  have hgiven : given (.computed, id) before = given (.computed, id) (p.trace c) := by
    obtain ⟨x, hx⟩ := hwritten id n rfl
    have hone := honce c
    have hpos := List.length_pos_of_mem (mem_given (a := (.computed, id)).2 hx)
    rw [htrace, given_append, List.length_append] at hone
    have hrest : given (.computed, id) (.saw (.computed id n) v :: rest) = [] :=
      List.length_eq_zero_iff.1 (by omega)
    rw [htrace, given_append, hrest, List.append_nil]
  have htake : writes p (.computed, id) (cs.take (t + 1)) =
      writes p (.computed, id) (cs.take t) ++ [given (.computed, id) before] := by
    rw [List.take_add_one, hc, hgiven]
    simp [writes]
  have hlast : ∀ k, v.ago? k =
      (writes p (.computed, id) (cs.take (t + 1 - k))).flatten.getLast? := by
    intro k
    have hago := (hp.split hc).1.ago (.computed, id) (given (.computed, id) before) k
    rw [← Stores.slot_after, ← htake, List.length_take, Nat.min_eq_left (Nat.le_of_lt hlt), writes,
      ← List.map_take, List.take_take, Nat.min_eq_left (Nat.sub_le _ _)] at hago
    rw [hslot _ rfl]
    exact hago
  refine ⟨hlast, fun hall k hk => ?_, fun k hk => ?_⟩
  · have he : cs[t - k]? = some cs[t - k] := List.getElem?_eq_getElem (by omega)
    have hmem : cs[t - k] ∈ cs.take (t + 1) :=
      List.mem_take_iff_getElem.2 ⟨t - k, by omega, rfl⟩
    obtain ⟨x, hx⟩ := List.length_eq_one_iff.1
      (Nat.le_antisymm (honce cs[t - k]) (List.length_pos_iff.2 (hall _ hmem)))
    refine ⟨_, x, he, hx, ?_⟩
    rw [hlast, show t + 1 - k = t - k + 1 by omega, List.take_add_one, he, writes, List.map_append,
      List.flatten_append, List.getLast?_append]
    simp [hx]
  · rw [hlast, show t + 1 - k = 0 by omega]
    rfl

/-- **The history of a computed series.** In every run of a script that does not fail, at every bar,
whatever reads a computed series finds the values that it was given last; if evaluation has reached
it at every bar until then, these are the values of the expression at these bars. -/
theorem computed_history {source : String} {p : Program} (bars : List (Bar α)) (useCache : Bool)
    (precision : Precision) (count : Option Nat) (hcompile : compile source = .ok p) :
    let r := Runner.configured bars useCache precision
    let cs := Runner.entered p (Runner.window r.market count) r.context
    (r.runIn r.context (some source) count).1 = .ok () →
      ∀ t c id n v, cs[t]? = some c → .saw (.computed id n) v ∈ p.trace c →
        SeriesAt p id cs t v := by
  intro r cs hok t c id n v hc hsaw
  have hcomputed : (p.effects.filterMap Effect.computed?).Nodup :=
    compile_computed hcompile ▸ List.nodup_range
  rw [Runner.runIn_some hcompile (.inl rfl)] at hok
  cases hran : r.ran ⟨source, p⟩ r.context count with
  | mk outcome rest =>
    rw [hran] at hok
    obtain rfl : outcome = .ok () := hok
    have hp := (Runner.ran_processed (p := p) .start count hran).1
    exact hp.seriesAt hcomputed hc hsaw

/-- A series that evaluation reaches at every second bar. -/
def alternateSource : String := "return nz(1 / (bar_index % 2), (close * 2)[1])"

/-- Twice the close. -/
def doubled : Node := .binary .mul (.read (.price .close) none) (.number (.ofNat 2))

def alternateProgram : Program :=
  ⟨[], some (.single (.nz
    (.binary .div (.number (.ofNat 1)) (.binary .mod .barIndex (.number (.ofNat 2))))
    (.read (.computed 0 doubled) (some (.number (.ofNat 1)))))), ⟨1, 0, 1, 0⟩⟩

theorem compile_alternateSource : compile alternateSource = .ok alternateProgram := by
  with_unfolding_all rfl

/-- Evaluation reaches the series at the third bar. -/
theorem alternateProgram_saw {c : Context Float} (hbar : c.bar = 2) :
    ∃ v, .saw (.computed 0 doubled) v ∈ alternateProgram.trace c := by
  let ratio : Float := BinaryOp.div.apply 1 (BinaryOp.mod.apply (Arith.ofCount c.bar) 2)
  let x : Float := (c.snapshot.price .close).ago 0 * 2
  let c' : Context Float := { c with stores := c.stores.set .computed 0 x }
  let v : View Float := c'.stores.computed.view 0
  have htrace : alternateProgram.trace c = if Arith.isNaN ratio then
      [.saw (.price .close) (c.snapshot.price .close), .wrote .computed 0 x,
        .saw (.computed 0 doubled) v] else [] := rfl
  refine ⟨v, ?_⟩
  have hratio : Arith.isNaN ratio = true := by
    simp only [ratio, hbar]
    decide +kernel
  rw [htrace, if_pos hratio]
  simp

theorem computed_history_alternate :
    let bars : List (Bar Float) :=
      [⟨0, 1, 1, 1, 1, 1, 5⟩, ⟨1, 2, 2, 2, 2, 2, 5⟩, ⟨2, 3, 3, 3, 3, 3, 5⟩]
    let r := Runner.configured bars true .standard
    let cs := Runner.entered alternateProgram (Runner.window r.market none) r.context
    compile alternateSource = .ok alternateProgram ∧
      (r.runIn r.context (some alternateSource) none).1 = .ok () ∧
      ∃ c v, cs[2]? = some c ∧ .saw (.computed 0 doubled) v ∈ alternateProgram.trace c ∧
        SeriesAt alternateProgram 0 cs 2 v := by
  intro bars r cs
  have hmarket : Market.ofBars bars = ⟨bars.toArray⟩ := Market.ofBars_ascending (by decide)
  have hr : r = ⟨⟨bars.toArray⟩, none, true, .standard⟩ := by rw [← hmarket]; rfl
  have hok : (r.runIn r.context (some alternateSource) none).1 = .ok () := by
    rw [Runner.runIn_some compile_alternateSource (.inl rfl), hr]
    decide +kernel
  have hbars : cs.map (·.bar) = [0, 1, 2] := by
    simp only [cs, hr]
    decide +kernel
  have hlen : cs.length = 3 := by simpa using congrArg List.length hbars
  have hc : cs[2]? = some cs[2] := List.getElem?_eq_getElem (by omega)
  have hbar : cs[2].bar = 2 := by
    have := congrArg (·[2]?) hbars
    simpa [hlen] using this
  obtain ⟨v, hsaw⟩ := alternateProgram_saw hbar
  exact ⟨compile_alternateSource, hok, _, v, hc, hsaw,
    computed_history bars true .standard none compile_alternateSource hok 2 _ 0 doubled v hc hsaw⟩

/-- At the second bar evaluation passes the series by. At the third one the element one bar ago is 2,
twice the first close, while the expression was 4 at the second bar. -/
theorem computed_history_passed_by :
    let bars : List (Bar Float) :=
      [⟨0, 1, 1, 1, 1, 1, 5⟩, ⟨1, 2, 2, 2, 2, 2, 5⟩, ⟨2, 3, 3, 3, 3, 3, 5⟩]
    let r := Runner.configured bars true .standard
    let cs := Runner.entered alternateProgram (Runner.window r.market none) r.context
    let value (c : Context Float) : Option Float :=
      match doubled.eval c with
      | .ok x _ => some x
      | .error _ _ => none
    let seen (c : Context Float) : List (Option Float) :=
      (alternateProgram.trace c).filterMap fun e =>
        match e with
        | .saw (.computed 0 _) v => some (v.ago? 1)
        | _ => none
    cs.map value = [some 2, some 4, some 6] ∧ cs.map seen = [[none], [], [some 2]] := by
  intro bars r cs value seen
  have hmarket : Market.ofBars bars = ⟨bars.toArray⟩ := Market.ofBars_ascending (by decide)
  have hr : r = ⟨⟨bars.toArray⟩, none, true, .standard⟩ := by rw [← hmarket]; rfl
  simp only [cs, value, seen, hr]
  decide +kernel

end BarScript
