import Mathlib.Data.List.Basic
import Mathlib.Logic.Function.Basic
import BarScript.Arith.Double
import BarScript.Proofs.CacheEntry

/-!
# The protocol of the cache

A cache is asked by any calls, of four families of streaming states, and cleared in between. What it
has to hold is written down beside it: for every handle the newest call that had input
(`heldAfter`). The cache stands for that if every entry is what the inputs of that call leave of a
fresh state (`Represents`); a call keeps this, warm or cold, if it agrees with the inputs that it
continues (`Represents.evaluate`). So every call gives what a replay of its own inputs gives, whatever
was asked before (`cache_protocol`).
-/

namespace BarScript

/-! ## Families of states -/

/-- The families of streaming states that a cache keeps. -/
inductive Family where
  | mean | smoothed | strength | range
  deriving DecidableEq

namespace Family

/-- The states of a family. -/
def State (α : Type) : Family → Type
  | mean => MeanState α
  | smoothed => SmoothedState α
  | strength => StrengthState α
  | range => RangeState α

/-- What the states of a family take in. -/
def Input (α : Type) : Family → Type
  | range => Reach α
  | _ => α

variable {α : Type}

instance [Arith α] (f : Family) : Streaming (f.State α) (f.Input α) α :=
  match f with
  | mean => inferInstanceAs (Streaming (MeanState α) α α)
  | smoothed => inferInstanceAs (Streaming (SmoothedState α) α α)
  | strength => inferInstanceAs (Streaming (StrengthState α) α α)
  | range => inferInstanceAs (Streaming (RangeState α) (Reach α) α)

instance (f : Family) : Cacheable (f.State α) α :=
  match f with
  | mean => inferInstanceAs (Cacheable (MeanState α) α)
  | smoothed => inferInstanceAs (Cacheable (SmoothedState α) α)
  | strength => inferInstanceAs (Cacheable (StrengthState α) α)
  | range => inferInstanceAs (Cacheable (RangeState α) α)

/-- A state is taken back by its own family only. -/
theorem eq_of_unwrap {f g : Family} {s : f.State α} {t : g.State α}
    (h : Cacheable.unwrap (Cacheable.wrap s) = some t) : f = g := by
  cases f <;> cases g <;> first | rfl | cases h

end Family

/-! ## Calls -/

/-- What a cache is asked to do. -/
inductive CacheCall (α : Type) where
  | evaluate (handle : Nat) (kind : Kind) (family : Family) (inputs : View (family.Input α))
  | clear

/-- A call that had input: its kind, its family and the input. -/
structure Held (α : Type) where
  kind : Kind
  family : Family
  inputs : List (family.Input α)

section

variable {α : Type}

/-- What the handles hold after a call. -/
def holding (held : Nat → Option (Held α)) : CacheCall α → Nat → Option (Held α)
  | .evaluate handle kind family inputs =>
    if inputs.toList = [] then held
    else Function.update held handle (some ⟨kind, family, inputs.toList⟩)
  | .clear => fun _ => none

/-- What the handles hold after some calls: each one the newest call that had input. -/
def heldAfter (calls : List (CacheCall α)) : Nat → Option (Held α) :=
  calls.foldl holding fun _ => none

/-- A call that continues the one its handle holds, by one input. -/
def Continues (held : Nat → Option (Held α)) (handle : Nat) (kind : Kind) (family : Family)
    (size : Nat) : Prop :=
  ∃ older, held handle = some ⟨kind, family, older⟩ ∧ older.length + 1 = size

/-- A call that continues another one has the same inputs before its newest one. -/
def Agrees (held : Nat → Option (Held α)) : CacheCall α → Prop
  | .evaluate handle kind family inputs =>
    ∀ older, held handle = some ⟨kind, family, older⟩ → older.length + 1 = inputs.size →
      older <+: inputs.toList
  | .clear => True

/-- Every call agrees with what its handle holds then. -/
def Agreeing (held : Nat → Option (Held α)) : List (CacheCall α) → Prop
  | [] => True
  | call :: calls => Agrees held call ∧ Agreeing (holding held call) calls

end

section

variable {α : Type} [Arith α] (init : Kind → (f : Family) → f.State α)

/-- The cache after a call, a fresh state being given by kind and family. -/
def Cache.serve (c : Cache α) : CacheCall α → Cache α
  | .evaluate handle kind family inputs => (c.evaluate handle kind inputs (init kind family)).2
  | .clear => c.clear

/-- A fresh cache after some calls. -/
def Cache.serveAll (calls : List (CacheCall α)) : Cache α := calls.foldl (serve init) .fresh

/-- All outputs at the inputs of a call. -/
def Held.outputs (e : Held α) : List α := replay (init e.kind e.family) e.inputs

/-- The entry for a call. -/
def Held.entry (e : Held α) : CacheEntry α where
  kind := e.kind
  processed := e.inputs.length
  results := (e.outputs init).toArray
  state := Cacheable.wrap (feed (init e.kind e.family) e.inputs).2

/-- Every handle has the entry for the call that it holds. -/
def Represents (held : Nat → Option (Held α)) (c : Cache α) : Prop :=
  ∀ handle, c.entries.find? handle = (held handle).map (Held.entry init)

end

/-! ## One call -/

section

variable {α : Type} [Arith α] {init : Kind → (f : Family) → f.State α}
  {held : Nat → Option (Held α)} {c : Cache α}

theorem represents_fresh : Represents init (fun _ => none) .fresh := fun _ => rfl

theorem represents_clear (c : Cache α) : Represents init (fun _ => none) c.clear := fun _ => rfl

namespace Represents

/-- A call that continues another one finds the state after that. -/
theorem warm?_continues (h : Represents init held c) {handle : Nat} {kind : Kind} {family : Family}
    {older : List (family.Input α)} (hheld : held handle = some ⟨kind, family, older⟩) :
    c.warm? handle kind (older.length + 1) =
      some (Held.entry init ⟨kind, family, older⟩, (feed (init kind family) older).2) := by
  rw [Cache.warm?, h handle, hheld, Option.map_some]
  simp only [Held.entry, and_self, if_true]
  rw [Cacheable.unwrap_wrap, Option.map_some]

/-- No other call finds anything. -/
theorem warm?_eq_none (h : Represents init held c) {handle : Nat} {kind : Kind} {family : Family}
    {size : Nat} (hother : ¬ Continues held handle kind family size) :
    (c.warm? handle kind size : Option (CacheEntry α × family.State α)) = none := by
  rw [Option.eq_none_iff_forall_ne_some]
  rintro ⟨e, s⟩ hwarm
  obtain ⟨hfind, hkind, hprocessed, hstate⟩ := Cache.warm?_some hwarm
  rw [h handle, Option.map_eq_some_iff] at hfind
  obtain ⟨⟨kind', family', older⟩, hheld, rfl⟩ := hfind
  obtain rfl : kind' = kind := hkind
  obtain rfl : family' = family := Family.eq_of_unwrap hstate
  exact hother ⟨older, hheld, hprocessed⟩

/-- **A call without input** changes nothing. -/
theorem evaluate_nil (c : Cache α) (handle : Nat) (kind : Kind) {family : Family}
    {inputs : View (family.Input α)} (hempty : inputs.toList = []) (s : family.State α) :
    c.evaluate handle kind inputs s = (Arith.nan, c) := by
  have hcurrent : inputs.current? = none := by rw [View.current?_eq, hempty, List.getLast?_nil]
  rw [Cache.evaluate, hcurrent]

/-- An entry replaced by the one for a call. -/
theorem insert (h : Represents init held c) (handle : Nat) (e : Held α) (warm cold : Nat) :
    Represents init (Function.update held handle (some e))
      ⟨c.entries.insert handle (e.entry init), warm, cold⟩ := by
  intro other
  by_cases hother : other = handle
  · rw [hother, Assoc.find?_insert_self, Function.update_self, Option.map_some]
  · rw [Assoc.find?_insert_of_ne _ hother, h other, Function.update_of_ne hother]

/-- **A warm call** feeds its newest input to the state of its entry. -/
theorem evaluate_warm (h : Represents init held c) {handle : Nat} {kind : Kind} {family : Family}
    {inputs : View (family.Input α)} {older : List (family.Input α)} {x : family.Input α}
    (hheld : held handle = some ⟨kind, family, older⟩) (hinputs : inputs.toList = older ++ [x]) :
    c.evaluate handle kind inputs (init kind family) =
      (lastValue (replay (init kind family) inputs.toList),
        ⟨c.entries.insert handle (Held.entry init ⟨kind, family, inputs.toList⟩), c.warmHits + 1,
          c.coldRecomputes⟩) := by
  have hsize : inputs.size = older.length + 1 := by
    rw [← View.length_toList, hinputs, List.length_append, List.length_singleton]
  have hcurrent : inputs.current? = some x := by
    rw [View.current?_eq, hinputs, List.getLast?_concat]
  have hfeed := feed_append (init kind family) older [x]
  rw [Cache.evaluate, hcurrent]
  dsimp only
  rw [hsize, h.warm?_continues hheld, hinputs]
  simp [Cache.continueWith, Held.entry, Held.outputs, replay, hfeed, feed, lastValue]

/-- **A cold call** replays all of its inputs. -/
theorem evaluate_cold (h : Represents init held c) {handle : Nat} {kind : Kind} {family : Family}
    {inputs : View (family.Input α)} (hinputs : inputs.toList ≠ [])
    (hother : ¬ Continues held handle kind family inputs.size) :
    c.evaluate handle kind inputs (init kind family) =
      (lastValue (replay (init kind family) inputs.toList),
        ⟨c.entries.insert handle (Held.entry init ⟨kind, family, inputs.toList⟩), c.warmHits,
          c.coldRecomputes + if (held handle).isSome then 1 else 0⟩) := by
  obtain ⟨x, hcurrent⟩ : ∃ x, inputs.current? = some x := by
    rw [View.current?_eq]
    exact ⟨_, List.getLast?_eq_some_getLast hinputs⟩
  have hfound : (c.entries.find? handle).isSome = (held handle).isSome := by
    rw [h handle, Option.isSome_map]
  rw [Cache.evaluate, hcurrent]
  dsimp only
  rw [h.warm?_eq_none hother]
  simp only [Cache.recompute, Held.entry, Held.outputs, replay, View.length_toList, hfound]

/-- **A call** with input gives the newest output of a replay and leaves its entry; how it is counted
depends on what the handle holds. -/
theorem evaluate (h : Represents init held c) {handle : Nat} {kind : Kind} {family : Family}
    {inputs : View (family.Input α)} (hinputs : inputs.toList ≠ [])
    (hagrees : Agrees held (.evaluate handle kind family inputs)) :
    ∃ warm cold, c.evaluate handle kind inputs (init kind family) =
        (lastValue (replay (init kind family) inputs.toList),
          ⟨c.entries.insert handle (Held.entry init ⟨kind, family, inputs.toList⟩),
            c.warmHits + warm, c.coldRecomputes + cold⟩) ∧
      (Continues held handle kind family inputs.size → warm = 1 ∧ cold = 0) ∧
      (¬ Continues held handle kind family inputs.size →
        warm = 0 ∧ cold = if (held handle).isSome then 1 else 0) := by
  by_cases hcontinues : Continues held handle kind family inputs.size
  · obtain ⟨older, hheld, hsize⟩ := id hcontinues
    obtain ⟨newest, hnewest⟩ := hagrees older hheld hsize
    have hlength : newest.length = 1 := by
      have := congrArg List.length hnewest
      rw [List.length_append, View.length_toList] at this
      omega
    obtain ⟨x, rfl⟩ := List.length_eq_one_iff.1 hlength
    exact ⟨1, 0, h.evaluate_warm hheld hnewest.symm, fun _ => ⟨rfl, rfl⟩,
      fun hnot => absurd hcontinues hnot⟩
  · exact ⟨0, _, h.evaluate_cold hinputs hcontinues, fun hyes => absurd hyes hcontinues,
      fun _ => ⟨rfl, rfl⟩⟩

/-- **Every call** leaves the cache standing for what the handles hold then. -/
theorem serve (h : Represents init held c) {call : CacheCall α} (hagrees : Agrees held call) :
    Represents init (holding held call) (c.serve init call) := by
  cases call with
  | clear => exact represents_clear c
  | evaluate handle kind family inputs =>
    simp only [Cache.serve, holding]
    split_ifs with hempty
    · rwa [evaluate_nil c handle kind hempty]
    · obtain ⟨warm, cold, heval, -, -⟩ := h.evaluate hempty hagrees
      rw [heval]
      exact h.insert handle _ _ _

end Represents

end

/-! ## Any calls -/

section

variable {α : Type} [Arith α] {init : Kind → (f : Family) → f.State α}

omit [Arith α] in
theorem agreeing_append {held : Nat → Option (Held α)} {before after : List (CacheCall α)} :
    Agreeing held (before ++ after) ↔
      Agreeing held before ∧ Agreeing (before.foldl holding held) after := by
  induction before generalizing held with
  | nil => exact ⟨fun h => ⟨trivial, h⟩, And.right⟩
  | cons call before ih => exact (and_congr_right fun _ => ih).trans and_assoc.symm

/-- **Any calls** leave the cache standing for what the handles hold then. -/
theorem Represents.run {held : Nat → Option (Held α)} {c : Cache α} (h : Represents init held c)
    {calls : List (CacheCall α)} (hagreeing : Agreeing held calls) :
    Represents init (calls.foldl holding held) (calls.foldl (Cache.serve init) c) := by
  induction calls generalizing held c with
  | nil => exact h
  | cons call calls ih => exact ih (h.serve hagreeing.1) hagreeing.2

/-- **The protocol of the cache.** For any calls on a fresh cache, of any handles, kinds, families and
sizes and with the cache cleared in between: if each call that continues the one its handle holds (of
the same kind and family and with one input less) has the same inputs before its newest one, then a
call with input gives the last output of a replay of its own inputs from a fresh state, and the
results of its handle are all outputs of that; a call without input gives nothing and changes nothing.
No call changes the entry of another handle. A call that continues another one counts as a warm hit, any
other one with input counts as a replacement if its handle holds something, and as nothing if not.
Clearing keeps both counts. -/
theorem cache_protocol (init : Kind → (f : Family) → f.State α) (calls : List (CacheCall α))
    (hagreeing : Agreeing (fun _ => none) calls) :
    (∀ before handle kind family inputs after,
      calls = before ++ .evaluate handle kind family inputs :: after →
      let held := heldAfter before
      let c := Cache.serveAll init before
      let r := c.evaluate handle kind inputs (init kind family)
      (inputs.toList ≠ [] →
        (replay (init kind family) inputs.toList).getLast? = some r.1 ∧
        r.2.results? handle = some (replay (init kind family) inputs.toList).toArray) ∧
      (inputs.toList = [] → r = (Arith.nan, c)) ∧
      (∀ other, other ≠ handle → r.2.entries.find? other = c.entries.find? other) ∧
      (Continues held handle kind family inputs.size →
        r.2.warmHits = c.warmHits + 1 ∧ r.2.coldRecomputes = c.coldRecomputes) ∧
      (inputs.toList ≠ [] → c.entries.find? handle ≠ none →
        ¬ Continues held handle kind family inputs.size →
        r.2.warmHits = c.warmHits ∧ r.2.coldRecomputes = c.coldRecomputes + 1) ∧
      (inputs.toList ≠ [] → c.entries.find? handle = none →
        r.2.warmHits = c.warmHits ∧ r.2.coldRecomputes = c.coldRecomputes)) ∧
    ∀ before after, calls = before ++ .clear :: after →
      let c := Cache.serveAll init before
      (c.serve init .clear).entries = ∅ ∧ (c.serve init .clear).warmHits = c.warmHits ∧
        (c.serve init .clear).coldRecomputes = c.coldRecomputes := by
  refine ⟨?_, fun _ _ _ => ⟨rfl, rfl, rfl⟩⟩
  intro before handle kind family inputs after hcalls held c r
  obtain ⟨hbefore, hagrees, -⟩ := agreeing_append.1 (hcalls ▸ hagreeing)
  have hrepresents : Represents init held c := represents_fresh.run hbefore
  have hnone : c.entries.find? handle = none ↔ held handle = none := by
    rw [hrepresents handle, Option.map_eq_none_iff]
  by_cases hempty : inputs.toList = []
  · have hr : r = (Arith.nan, c) := Represents.evaluate_nil c handle kind hempty _
    refine ⟨fun h => absurd hempty h, fun _ => hr, fun _ _ => by rw [hr], ?_,
      fun h => absurd hempty h, fun h => absurd hempty h⟩
    rintro ⟨older, -, hsize⟩
    rw [← View.length_toList, hempty] at hsize
    exact absurd hsize (Nat.succ_ne_zero _)
  obtain ⟨warm, cold, hr, hwarm, hcold⟩ := hrepresents.evaluate hempty hagrees
  change r = _ at hr
  have hreplay : replay (init kind family) inputs.toList ≠ [] := by
    rwa [← List.length_pos_iff, length_replay, List.length_pos_iff]
  have hwarmHits : r.2.warmHits = c.warmHits + warm := by rw [hr]
  have hcolds : r.2.coldRecomputes = c.coldRecomputes + cold := by rw [hr]
  refine ⟨fun _ => ⟨?_, ?_⟩, fun h => absurd h hempty, fun other hother => ?_,
    fun hcontinues => ?_, fun _ hfound hcontinues => ?_, fun _ hmissing => ?_⟩
  · rw [hr, lastValue, List.getLast?_eq_some_getLast hreplay, Option.getD_some]
  · rw [hr, Cache.results?, Assoc.find?_insert_self]
    rfl
  · rw [hr, Assoc.find?_insert_of_ne _ hother]
  · obtain ⟨rfl, rfl⟩ := hwarm hcontinues
    exact ⟨hwarmHits, hcolds⟩
  · obtain ⟨rfl, rfl⟩ := hcold hcontinues
    rw [if_pos (Option.isSome_iff_ne_none.2 (mt hnone.2 hfound))] at hcolds
    exact ⟨hwarmHits, hcolds⟩
  · have hheld := hnone.1 hmissing
    have hother : ¬ Continues held handle kind family inputs.size := by
      rintro ⟨older, h, -⟩
      cases hheld.symm.trans h
    obtain ⟨rfl, rfl⟩ := hcold hother
    rw [hheld] at hcolds
    exact ⟨hwarmHits, hcolds⟩

/-- The second call continues the first one; the third one asks another family for the same inputs. -/
theorem cache_protocol_three :
    let init (_ : Kind) : (f : Family) → f.State Float
      | .mean => (MeanState.fresh 2 : MeanState Float)
      | .smoothed => (SmoothedState.ema 2 : SmoothedState Float)
      | .strength => (StrengthState.fresh 2 : StrengthState Float)
      | .range => (RangeState.fresh 2 : RangeState Float)
    let older : List Float := [1, 3]
    let inputs : List Float := [1, 3, 5]
    let first : CacheCall Float := .evaluate 7 (.sma 2) .mean (View.ofList older)
    let second : CacheCall Float := .evaluate 7 (.sma 2) .mean (View.ofList inputs)
    let third : CacheCall Float := .evaluate 7 (.sma 2) .smoothed (View.ofList inputs)
    let two := Cache.serveAll init [first, second]
    let three := Cache.serveAll init [first, second, third]
    two.results? 7 = some (replay (MeanState.fresh 2 : MeanState Float) inputs).toArray ∧
      two.warmHits = 1 ∧ two.coldRecomputes = 0 ∧ three.warmHits = 1 ∧ three.coldRecomputes = 1 := by
  intro init older inputs first second third two three
  have hagreeing : Agreeing (fun _ => none) [first, second, third] := by
    refine ⟨nofun, ?_, nofun, trivial⟩
    rintro _ ⟨⟩ -
    exact ⟨[(5 : Float)], rfl⟩
  obtain ⟨hcalls, -⟩ := cache_protocol init [first, second, third] hagreeing
  obtain ⟨-, -, -, -, -, hnew⟩ := hcalls [] _ _ _ _ [second, third] rfl
  obtain ⟨hresults, -, -, hwarm, -, -⟩ := hcalls [first] _ _ _ _ [third] rfl
  obtain ⟨-, -, -, -, hcold, -⟩ := hcalls [first, second] _ _ _ _ [] rfl
  obtain ⟨hzero, hzero'⟩ := hnew (List.cons_ne_nil _ _) rfl
  have hcontinues : Continues (heldAfter [first]) 7 (.sma 2) .mean 3 := ⟨older, rfl, rfl⟩
  obtain ⟨hone, hone'⟩ := hwarm hcontinues
  have hsecond : two.results? 7 =
      some (replay (MeanState.fresh 2 : MeanState Float) inputs).toArray :=
    (hresults (List.cons_ne_nil _ _)).2
  have hfound : two.entries.find? 7 ≠ none := by
    intro hnone
    rw [Cache.results?, hnone] at hsecond
    exact Option.some_ne_none _ hsecond.symm
  have hother : ¬ Continues (heldAfter [first, second]) 7 (.sma 2) .smoothed 3 := by
    rintro ⟨_, hheld, -⟩
    cases hheld
  obtain ⟨hwarmHits, hcolds⟩ := hcold (List.cons_ne_nil _ _) hfound hother
  have htwo : two.warmHits = 1 := hone.trans (congrArg (· + 1) hzero)
  have htwo' : two.coldRecomputes = 0 := hone'.trans hzero'
  exact ⟨hsecond, htwo, htwo', hwarmHits.trans htwo, hcolds.trans (congrArg (· + 1) htwo')⟩

end

end BarScript
