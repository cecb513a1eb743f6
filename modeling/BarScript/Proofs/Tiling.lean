import Mathlib
import BarScript.Data.CloseTimes
import BarScript.Proofs.InstantRange

/-!
# Derived close times tile the time line

Bars in the order of their opening that are given close times (`deriveCloseTimes`) cover the time
from the first opening on without gaps, and two of them overlap only if they open together. The
numbers that are computed on the way stay far inside of a word of 64 bits, since opening times are
among those that texts can name (`close_times_tile`).
-/

namespace BarScript

variable {α : Type}

/-- A time in the range of those that texts name. -/
def Instant.Readable (millis : Int) : Prop :=
  ∃ (text text' : String) (s t : Instant), read? text = some s ∧ read? text' = some t ∧
    s.millis ≤ millis ∧ millis ≤ t.millis

theorem Instant.Readable.bounds {millis : Int} (h : Readable millis) :
    -8334601228800000 ≤ millis ∧ millis < 8210266876800000 := by
  obtain ⟨text, text', s, t, hs, ht, hlow, hhigh⟩ := h
  have hs := of_decide_eq_true (inRange_of_read? hs)
  have ht := of_decide_eq_true (inRange_of_read? ht)
  omega

/-! ## In words -/

/-- A number, if a word of 64 bits holds it. -/
def inWord (n : Int) : Option Int := if -(2 ^ 63) ≤ n ∧ n < 2 ^ 63 then some n else none

/-- How long a bar lasts, computed in words: until the next one opens, or else as long as from the
one before. -/
def spacingInWords (before : Option Int) (opens : Int) : Option Int → Option Int
  | some next => inWord (next - opens)
  | none =>
    match before with
    | some before => inWord (opens - before)
    | none => some 1

/-- When a bar closes, computed in words. -/
def closeTimeInWords (before : Option Int) (opens : Int) (next : Option Int) : Option Int := do
  let spacing ← spacingInWords before opens next
  let millis ← inWord (spacing - 1)
  inWord (opens + max millis 0)

/-- Bars with their close times, computed in words; there are none if a number does not fit. -/
def closeTimesInWords (before : Option Int) : List (Bar α) → Option (List (Bar α))
  | [] => some []
  | b :: bars => do
    let closeTime ← closeTimeInWords before b.openTime (bars.head?.map (·.openTime))
    let bars ← closeTimesInWords (some b.openTime) bars
    return { b with closeTime := closeTime } :: bars

theorem inWord_of_small {n : Int} (h : -(2 ^ 60) ≤ n ∧ n < 2 ^ 60) : inWord n = some n :=
  if_pos ⟨by omega, by omega⟩

/-- A spacing of opening times leads to a close time. -/
theorem closeTimeInWords_of_spacing {before next : Option Int} {opens spacing : Int}
    (hopens : Instant.Readable opens) (hspacing : spacingInWords before opens next = some spacing)
    (hsmall : -(2 ^ 58) ≤ spacing ∧ spacing < 2 ^ 58) :
    closeTimeInWords before opens next = some (opens + max (spacing - 1) 0) := by
  have hopens := hopens.bounds
  rw [closeTimeInWords, hspacing, Option.bind_eq_bind, Option.bind_some,
    inWord_of_small (by omega), Option.bind_some, inWord_of_small (by omega)]

/-- No number on the way is too large for a word. -/
theorem closeTimesInWords_eq {before : Option Int} {bars : List (Bar α)}
    (hbefore : ∀ t ∈ before, Instant.Readable t)
    (hbars : ∀ b ∈ bars, Instant.Readable b.openTime) :
    closeTimesInWords before bars = some (closeTimesAfter before bars) := by
  fun_induction closeTimesAfter before bars with
  | case1 => rfl
  | case2 before b =>
    have hb := hbars b (List.mem_singleton_self b)
    have hb' := hb.bounds
    have hclose : closeTimeInWords before b.openTime none =
        some (b.openTime + max ((before.map (b.openTime - ·)).getD 1 - 1) 0) := by
      cases before with
      | none =>
        have hspacing : spacingInWords none b.openTime none = some 1 := rfl
        have hclose := closeTimeInWords_of_spacing hb hspacing (by decide)
        exact hclose
      | some t =>
        have ht := (hbefore t rfl).bounds
        have hspacing : spacingInWords (some t) b.openTime none = some (b.openTime - t) :=
          inWord_of_small (by omega)
        have hclose := closeTimeInWords_of_spacing hb hspacing (by omega)
        exact hclose
    rw [closeTimesInWords, List.head?_nil, Option.map_none, hclose]
    rfl
  | case3 before b c rest ih =>
    obtain ⟨hb, hrest⟩ := List.forall_mem_cons.1 hbars
    have hb' := hb.bounds
    have hc := (hrest c List.mem_cons_self).bounds
    have hclose : closeTimeInWords before b.openTime (some c.openTime) =
        some (b.openTime + max (c.openTime - b.openTime - 1) 0) :=
      closeTimeInWords_of_spacing hb (inWord_of_small (by omega)) (by omega)
    have ih := ih (fun t ht => Option.mem_some_iff.1 ht ▸ hb) hrest
    rw [closeTimesInWords, List.head?_cons, Option.map_some, hclose, ih]
    rfl

/-! ## Tiles -/

/-- The bars are the same, but for their close times. -/
def SameButClose (b c : Bar α) : Prop := c = { b with closeTime := c.closeTime }

theorem sameButClose_lasting (b : Bar α) (millis : Int) : SameButClose b (b.lasting millis) := rfl

theorem closeTimesAfter_same (before : Option Int) (bars : List (Bar α)) :
    List.Forall₂ SameButClose bars (closeTimesAfter before bars) := by
  fun_induction closeTimesAfter before bars with
  | case1 => exact .nil
  | case2 before b => exact .cons (sameButClose_lasting b _) .nil
  | case3 before b c rest ih => exact .cons (sameButClose_lasting b _) ih

/-- Close times that bars had before do not matter. -/
theorem closeTimesAfter_congr {before : Option Int} {bars bars' : List (Bar α)}
    (h : List.Forall₂ SameButClose bars bars') :
    closeTimesAfter before bars' = closeTimesAfter before bars := by
  induction h generalizing before with
  | nil => rfl
  | @cons b b' rest rest' hb hrest ih =>
    have hopens : b'.openTime = b.openTime := by rw [hb]
    have hlasting (millis : Int) : b'.lasting millis = b.lasting millis := by
      rw [hb]
      rfl
    cases hrest with
    | nil => simp only [closeTimesAfter, hlasting, hopens]
    | @cons c c' _ _ hc hrest =>
      have hnext : c'.openTime = c.openTime := by rw [hc]
      simp only [closeTimesAfter, hlasting, hopens, hnext] at ih ⊢
      rw [ih]

theorem length_closeTimesAfter (before : Option Int) (bars : List (Bar α)) :
    (closeTimesAfter before bars).length = bars.length :=
  (closeTimesAfter_same before bars).length_eq.symm

theorem openTimes_closeTimesAfter (before : Option Int) (bars : List (Bar α)) :
    (closeTimesAfter before bars).map (·.openTime) = bars.map (·.openTime) := by
  refine (List.forall₂_eq_eq_eq ▸ List.forall₂_map_left_iff.2 (List.forall₂_map_right_iff.2 ?_) :
    _ = _)
  exact (closeTimesAfter_same before bars).flip.imp fun b c (h : SameButClose c b) => by rw [h]

/-- The moments that a bar covers, both ends among them. -/
def Bar.span (b : Bar α) : Set Int := Set.Icc b.openTime b.closeTime

/-- Bars that cover the time without gaps. -/
structure Tiles (bars : List (Bar α)) : Prop where
  lasts : ∀ b ∈ bars, b.openTime ≤ b.closeTime
  meets : bars.IsChain fun b c => b.openTime < c.openTime → b.closeTime + 1 = c.openTime
  disjoint : bars.Pairwise fun b c => b.openTime ≠ c.openTime → Disjoint b.span c.span
  newest : ∀ front b c, bars = front ++ [b, c] →
    c.closeTime + 1 - c.openTime = max (c.openTime - b.openTime) 1
  alone : ∀ b, bars = [b] → b.closeTime = b.openTime

theorem closeTimesAfter_lasts (before : Option Int) (bars : List (Bar α)) :
    ∀ b ∈ closeTimesAfter before bars, b.openTime ≤ b.closeTime := by
  have hlasting (b : Bar α) (millis : Int) : b.openTime ≤ (b.lasting millis).closeTime := by
    simp only [Bar.lasting]
    omega
  fun_induction closeTimesAfter before bars with
  | case1 => exact nofun
  | case2 before b => exact List.forall_mem_singleton.2 (hlasting b _)
  | case3 before b c rest ih => exact List.forall_mem_cons.2 ⟨hlasting b _, ih⟩

/-- The first bar opens when it did. -/
theorem head?_closeTimesAfter (before : Option Int) (bars : List (Bar α)) :
    (closeTimesAfter before bars).head?.map (·.openTime) = bars.head?.map (·.openTime) := by
  rw [← List.head?_map, openTimes_closeTimesAfter, List.head?_map]

theorem closeTimesAfter_meets (before : Option Int) (bars : List (Bar α)) :
    (closeTimesAfter before bars).IsChain
      fun b c => b.openTime < c.openTime → b.closeTime + 1 = c.openTime := by
  fun_induction closeTimesAfter before bars with
  | case1 => exact .nil
  | case2 => exact .singleton _
  | case3 before b c rest ih =>
    refine List.isChain_cons.2 ⟨fun c' hc' hlater => ?_, ih⟩
    have hopens := head?_closeTimesAfter (some b.openTime) (c :: rest)
    rw [Option.mem_def.1 hc'] at hopens
    have hopens : c'.openTime = c.openTime := Option.some.inj hopens
    simp only [Bar.lasting] at hlater ⊢
    omega

/-- A bar closes before every later one opens. One that opens together with its neighbour closes
right away. -/
theorem closeTimesAfter_disjoint {before : Option Int} {bars : List (Bar α)}
    (hsorted : bars.Pairwise (·.openTime ≤ ·.openTime)) :
    (closeTimesAfter before bars).Pairwise
      fun b c => b.openTime ≠ c.openTime → Disjoint b.span c.span := by
  fun_induction closeTimesAfter before bars with
  | case1 => exact .nil
  | case2 => exact List.pairwise_singleton ..
  | case3 before b c rest ih =>
    obtain ⟨hfirst, hsorted⟩ := List.pairwise_cons.1 hsorted
    refine List.pairwise_cons.2 ⟨fun d hd hne => ?_, ih hsorted⟩
    have hd : d.openTime ∈ (c :: rest).map (·.openTime) := by
      rw [← openTimes_closeTimesAfter (some b.openTime)]
      exact List.mem_map_of_mem hd
    obtain ⟨d', hd', hopens⟩ := List.mem_map.1 hd
    have hbd := hfirst d' hd'
    have hcd : c.openTime ≤ d'.openTime := by
      rcases List.mem_cons.1 hd' with rfl | hd'
      · exact Int.le_refl _
      · exact List.rel_of_pairwise_cons hsorted hd'
    refine Set.disjoint_left.2 fun t ht ht' => ?_
    obtain ⟨-, ht⟩ := ht
    obtain ⟨ht', -⟩ := ht'
    simp only [Bar.lasting] at hne ht
    omega

theorem closeTimesAfter_newest {before : Option Int} {bars front : List (Bar α)} {b c : Bar α}
    (h : closeTimesAfter before bars = front ++ [b, c]) :
    c.closeTime + 1 - c.openTime = max (c.openTime - b.openTime) 1 := by
  fun_induction closeTimesAfter before bars generalizing front with
  | case1 => simp at h
  | case2 before d =>
    have hlength := congrArg List.length h
    simp at hlength
  | case3 before d e rest ih =>
    cases front with
    | cons d' front => exact ih (List.cons.inj h).2
    | nil =>
      -- only two bars are left, and the distance is counted from the first one
      obtain ⟨rfl, hrest⟩ := List.cons.inj h
      cases rest with
      | nil =>
        obtain ⟨rfl, -⟩ := List.cons.inj hrest
        simp only [Bar.lasting, Option.map_some, Option.getD_some]
        omega
      | cons f rest =>
        have hlength := congrArg List.length hrest
        rw [length_closeTimesAfter] at hlength
        simp at hlength

theorem deriveCloseTimes_tiles {bars : List (Bar α)}
    (hsorted : bars.Pairwise (·.openTime ≤ ·.openTime)) : Tiles (deriveCloseTimes bars) where
  lasts := closeTimesAfter_lasts none bars
  meets := closeTimesAfter_meets none bars
  disjoint := closeTimesAfter_disjoint hsorted
  newest _ _ _ h := closeTimesAfter_newest h
  alone b h := by
    have hlength := congrArg List.length h
    rw [deriveCloseTimes, length_closeTimesAfter] at hlength
    obtain ⟨c, rfl⟩ := List.length_eq_one_iff.1 hlength
    obtain ⟨rfl, -⟩ := List.cons.inj h
    exact Int.add_zero _

/-- **Derived close times tile the time line.** No number on the way leaves the range of words, only
close times change, the spans of the bars cover the time from the first opening on without gaps, and
bars that have been closed once stay as they are. -/
theorem close_times_tile {bars : List (Bar α)}
    (hsorted : bars.Pairwise (·.openTime ≤ ·.openTime))
    (hreadable : ∀ b ∈ bars, Instant.Readable b.openTime) :
    closeTimesInWords none bars = some (deriveCloseTimes bars) ∧
      List.Forall₂ SameButClose bars (deriveCloseTimes bars) ∧
      Tiles (deriveCloseTimes bars) ∧
      deriveCloseTimes (deriveCloseTimes bars) = deriveCloseTimes bars := by
  have hsame : List.Forall₂ SameButClose bars (deriveCloseTimes bars) :=
    closeTimesAfter_same none bars
  exact ⟨closeTimesInWords_eq nofun hreadable, hsame, deriveCloseTimes_tiles hsorted,
    closeTimesAfter_congr hsame⟩

/-- Of four bars the two in the middle open together. -/
theorem close_times_tile_doubled :
    let bars : List (Bar Int) := [0, 60000, 60000, 180000].map fun t => ⟨t, t, 1, 1, 1, 1, 1⟩
    bars.Pairwise (·.openTime ≤ ·.openTime) ∧ (∀ b ∈ bars, Instant.Readable b.openTime) ∧
      (deriveCloseTimes bars).map (·.closeTime) = [59999, 60000, 179999, 299999] ∧
      Tiles (deriveCloseTimes bars) := by
  intro bars
  have hsorted : bars.Pairwise (·.openTime ≤ ·.openTime) := by decide
  have hfirst : Instant.read? "0" = some ⟨0, 0⟩ := by decide
  have hlast : Instant.read? "180000" = some ⟨180, 0⟩ := by decide
  have hopens : ∀ b ∈ bars, 0 ≤ b.openTime ∧ b.openTime ≤ 180000 := by decide
  have hreadable : ∀ b ∈ bars, Instant.Readable b.openTime := fun b hb =>
    ⟨"0", "180000", _, _, hfirst, hlast, (hopens b hb).1, (hopens b hb).2⟩
  exact ⟨hsorted, hreadable, by decide, (close_times_tile hsorted hreadable).2.2.1⟩

end BarScript
