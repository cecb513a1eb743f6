import BarScript.Arith.Double
import BarScript.Proofs.Machine
import BarScript.Proofs.View

/-!
# Markets stay consistent

Bars are offered to a market one after the other (`Market.offerAll`): those that may be appended are
appended, the others change nothing, and every bar that was appended opens after all before it
(`Market.Grown.offerAll`). The series of a market are computed from its bars. A `Ledger` keeps them
beside the bars, one column for every price and every time; however the bars come in, its columns
stay the series of the market (`Ledger.Records.offerAll`). What is seen at a bar goes back from this
bar to the first one (`Snapshot.shows_view`). `Market.consistent` puts this together.
-/

namespace BarScript

variable {α β : Type}

namespace Market

/-! ## Offered bars -/

/-- Bars that come in different orders, and open at different times, are sorted in one way. -/
theorem sorted_eq_of_perm {bars bars' : List (Bar α)} (hperm : bars.Perm bars')
    (hdistinct : bars.Pairwise (·.openTime ≠ ·.openTime)) : sorted bars = sorted bars' := by
  have hsorted : (sorted bars).Perm (sorted bars') :=
    (sorted_perm bars).trans (hperm.trans (sorted_perm bars').symm)
  have strict {l : List (Bar α)} (h : l.Perm bars) (hl : l.Pairwise (·.openTime ≤ ·.openTime)) :
      l.Pairwise (·.openTime < ·.openTime) := by
    have hne : l.Pairwise (·.openTime ≠ ·.openTime) :=
      h.symm.pairwise hdistinct fun hab => hab.symm
    exact (hl.and hne).imp fun hab => lt_of_le_of_ne hab.1 hab.2
  have hbars := strict (sorted_perm bars) (sorted_pairwise bars)
  have hbars' := strict ((sorted_perm bars').trans hperm.symm) (sorted_pairwise bars')
  exact hsorted.eq_of_pairwise (fun a b _ _ hab hba => absurd hba (not_lt_of_gt hab)) hbars hbars'

variable [Arith α]

/-- The bar passes the check and opens after the newest one, if there is one. -/
def Accepts (m : Market α) (b : Bar α) : Prop :=
  b.check = .ok () ∧ ∀ newest ∈ m.bars.back?, newest.openTime < b.openTime

/-- Appends a bar, if it may be appended. -/
def offer (m : Market α) (b : Bar α) : Except Failure Unit × Market α :=
  match m.push b with
  | .ok m' => (.ok (), m')
  | .error failure => (.error failure, m)

/-- Offers bars, one after the other. -/
def offerAll (m : Market α) (bars : List (Bar α)) : Market α :=
  bars.foldl (fun m b => (m.offer b).2) m

theorem prices_push (bars : Array (Bar α)) (b : Bar α) (p : Price) :
    prices ⟨bars.push b⟩ p = (prices ⟨bars⟩ p).push (p.ofBar b) :=
  congrArg Series.mk Array.map_push

omit [Arith α] in
theorem times_push (bars : Array (Bar α)) (b : Bar α) (c : Clock) :
    times ⟨bars.push b⟩ c = (times ⟨bars⟩ c).push (c.ofBar b) :=
  congrArg Series.mk Array.map_push

theorem fault?_eq_none_iff {m : Market α} {b : Bar α} : m.fault? b = none ↔ m.Accepts b := by
  unfold fault? Accepts Bar.check
  cases b.fault? with
  | some fault => simp
  | none => cases m.bars.back? <;> simp

theorem offer_of_accepts {m : Market α} {b : Bar α} (h : m.Accepts b) :
    m.offer b = (.ok (), ⟨m.bars.push b⟩) := by
  rw [offer, push, fault?_eq_none_iff.2 h]

/-- A bar that is rejected changes nothing. -/
theorem offer_of_not_accepts {m : Market α} {b : Bar α} (h : ¬ m.Accepts b) :
    ∃ failure, m.offer b = (.error failure, m) := by
  cases hfault : m.fault? b with
  | none => exact absurd (fault?_eq_none_iff.1 hfault) h
  | some fault =>
    refine ⟨.invalidBar fault.message, ?_⟩
    rw [offer, push, hfault]

theorem offer_ok_iff {m : Market α} {b : Bar α} : (m.offer b).1 = .ok () ↔ m.Accepts b := by
  by_cases h : m.Accepts b
  · simp [offer_of_accepts h, h]
  · obtain ⟨failure, hoffer⟩ := offer_of_not_accepts h
    simp [hoffer, h]

/-- A bar that may be appended opens after all others. -/
theorem Accepts.after {m : Market α} {b : Bar α} (h : m.Accepts b)
    (hm : m.bars.toList.Pairwise (·.openTime ≤ ·.openTime)) :
    ∀ a ∈ m.bars.toList, a.openTime < b.openTime := by
  intro a ha
  obtain ⟨front, newest, hlist⟩ : ∃ front newest, m.bars.toList = front ++ [newest] :=
    ⟨_, _, (List.dropLast_append_getLast (List.ne_nil_of_mem ha)).symm⟩
  have hnewest : newest.openTime < b.openTime := by
    refine h.2 newest ?_
    rw [← Array.getLast?_toList, hlist, List.getLast?_concat]
    rfl
  rw [hlist] at ha hm
  rcases List.mem_append.1 ha with ha | ha
  · exact lt_of_le_of_lt ((List.pairwise_append.1 hm).2.2 a ha newest (.head _)) hnewest
  · rwa [List.mem_singleton.1 ha]

/-- Behind the bars `first` the market holds bars that were offered and appended. -/
structure Grown (first offered : List (Bar α)) (m : Market α) (pushed : List (Bar α)) : Prop where
  bars : m.bars.toList = first ++ pushed
  offered : pushed.Sublist offered
  checked : ∀ b ∈ pushed, b.check = .ok ()
  ascending : m.bars.toList.Pairwise (·.openTime ≤ ·.openTime)
  /-- Every bar that was appended opens after all before it. -/
  strict : pushed.Pairwise (·.openTime < ·.openTime) ∧
    ∀ a ∈ first, ∀ b ∈ pushed, a.openTime < b.openTime

/-- One more bar is offered. -/
theorem Grown.offer {first offered pushed : List (Bar α)} {m : Market α}
    (h : m.Grown first offered pushed) (b : Bar α) :
    ∃ pushed, (m.offer b).2.Grown first (offered ++ [b]) pushed := by
  by_cases haccepts : m.Accepts b
  · have hafter := haccepts.after h.ascending
    rw [h.bars, List.forall_mem_append] at hafter
    rw [offer_of_accepts haccepts]
    refine ⟨pushed ++ [b], ?_, h.offered.append (List.Sublist.refl _), ?_, ?_, ?_, ?_⟩
    · rw [Array.toList_push, h.bars, List.append_assoc]
    · exact List.forall_mem_append.2 ⟨h.checked, List.forall_mem_singleton.2 haccepts.1⟩
    · rw [Array.toList_push]
      refine List.pairwise_append.2 ⟨h.ascending, List.pairwise_singleton _ _, fun a ha x hx => ?_⟩
      rw [List.mem_singleton.1 hx]
      exact le_of_lt (haccepts.after h.ascending a ha)
    · refine List.pairwise_append.2 ⟨h.strict.1, List.pairwise_singleton _ _, fun a ha x hx => ?_⟩
      rw [List.mem_singleton.1 hx]
      exact hafter.2 a ha
    · intro a ha
      exact List.forall_mem_append.2
        ⟨h.strict.2 a ha, List.forall_mem_singleton.2 (hafter.1 a ha)⟩
  · obtain ⟨failure, hoffer⟩ := offer_of_not_accepts haccepts
    rw [hoffer]
    exact ⟨pushed, h.bars, h.offered.trans (List.sublist_append_left _ _), h.checked, h.ascending,
      h.strict⟩

/-- **Markets grow at their end**, whatever bars are offered. -/
theorem Grown.offerAll {first offered pushed : List (Bar α)} {m : Market α}
    (h : m.Grown first offered pushed) (bars : List (Bar α)) :
    ∃ pushed, (m.offerAll bars).Grown first (offered ++ bars) pushed := by
  induction bars generalizing m offered pushed with
  | nil => exact ⟨pushed, (List.append_nil offered).symm ▸ h⟩
  | cons b bars ih =>
    obtain ⟨pushed, h⟩ := h.offer b
    rw [← List.singleton_append, ← List.append_assoc]
    exact ih h

/-- A market of some bars has not grown yet. -/
theorem grown_ofBars (bars : List (Bar α)) : (ofBars bars).Grown (sorted bars) [] [] where
  bars := (List.append_nil _).symm
  offered := .slnil
  checked := List.forall_mem_nil _
  ascending := sorted_pairwise bars
  strict := ⟨.nil, fun _ _ => List.forall_mem_nil _⟩

end Market

/-! ## Ledgers -/

/-- The place of a price among all prices. -/
def Price.place : Price → Fin 8
  | opening => 0
  | high => 1
  | low => 2
  | close => 3
  | volume => 4
  | hl2 => 5
  | hlc3 => 6
  | ohlc4 => 7

theorem Price.place_inj {p q : Price} (h : p.place = q.place) : p = q := by
  cases p <;> cases q <;> first | rfl | exact absurd h (by decide)

/-- Bars, and beside them the series of every price, at its place, and of the times. -/
structure Ledger (α : Type) where
  bars : Array (Bar α)
  prices : Vector (Series α) 8
  opens : Series Int
  closes : Series Int

namespace Ledger

variable [Arith α]

def price (t : Ledger α) (p : Price) : Series α := t.prices[p.place]

def clock (t : Ledger α) : Clock → Series Int
  | .opens => t.opens
  | .closes => t.closes

/-- The columns of some bars, which may come in any order. -/
def ofBars (bars : List (Bar α)) : Ledger α :=
  let sorted := Market.sorted bars
  { bars := sorted.toArray
    prices := ⟨(Price.all.map fun p => Series.ofList (sorted.map p.ofBar)).toArray, rfl⟩
    opens := .ofList (sorted.map (·.openTime))
    closes := .ofList (sorted.map (·.closeTime)) }

/-- Appends the price of a bar to the series at the place of the price. -/
def pushPrice (b : Bar α) (prices : Vector (Series α) 8) (p : Price) : Vector (Series α) 8 :=
  prices.set p.place (prices[p.place].push (p.ofBar b))

/-- Appends a bar to every column, if the bar may be appended. -/
def offer (t : Ledger α) (b : Bar α) : Except Failure Unit × Ledger α :=
  match Market.fault? ⟨t.bars⟩ b with
  | some fault => (.error (.invalidBar fault.message), t)
  | none =>
    (.ok (), { bars := t.bars.push b
               prices := Price.all.foldl (pushPrice b) t.prices
               opens := t.opens.push b.openTime
               closes := t.closes.push b.closeTime })

/-- Offers bars, one after the other. -/
def offerAll (t : Ledger α) (bars : List (Bar α)) : Ledger α :=
  bars.foldl (fun t b => (t.offer b).2) t

/-- The columns are the bars and the series of the market. -/
structure Records (t : Ledger α) (m : Market α) : Prop where
  bars : t.bars = m.bars
  price : ∀ p, t.price p = m.prices p
  clock : ∀ c, t.clock c = m.times c

/-- A bar that is rejected changes no column. -/
theorem offer_error {t : Ledger α} {b : Bar α} {failure : Failure}
    (h : (t.offer b).1 = .error failure) : (t.offer b).2 = t := by
  unfold offer at h ⊢
  cases hfault : Market.fault? ⟨t.bars⟩ b with
  | some fault => rfl
  | none =>
    rw [hfault] at h
    cases h

theorem pushPrice_get (b : Bar α) (prices : Vector (Series α) 8) (p q : Price) :
    (pushPrice b prices p)[q.place] =
      if p = q then prices[q.place].push (q.ofBar b) else prices[q.place] := by
  unfold pushPrice
  by_cases h : p = q
  · subst h
    simp
  · have hplace : p.place.val ≠ q.place.val := fun heq => h (Price.place_inj (Fin.ext heq))
    simp [h, Vector.getElem_set_ne, hplace]

/-- Every series gets one price, its own. -/
theorem foldl_pushPrice_get (b : Bar α) (q : Price) (ps : List Price) (hps : ps.Nodup)
    (prices : Vector (Series α) 8) :
    (ps.foldl (pushPrice b) prices)[q.place] =
      if q ∈ ps then prices[q.place].push (q.ofBar b) else prices[q.place] := by
  induction ps generalizing prices with
  | nil => rfl
  | cons p ps ih =>
    obtain ⟨hp, hps⟩ := List.nodup_cons.1 hps
    rw [List.foldl_cons, ih hps, pushPrice_get]
    by_cases h : p = q
    · subst h
      simp [hp]
    · simp [h, Ne.symm h]

theorem records_ofBars (bars : List (Bar α)) : (ofBars bars).Records (.ofBars bars) where
  bars := rfl
  price p := by
    have hprice : (ofBars bars).price p = .ofList ((Market.sorted bars).map p.ofBar) := by
      cases p <;> rfl
    rw [hprice, Market.prices, Market.ofBars, List.map_toArray]
    rfl
  clock c := by
    have hclock : (ofBars bars).clock c = .ofList ((Market.sorted bars).map c.ofBar) := by
      cases c <;> rfl
    rw [hclock, Market.times, Market.ofBars, List.map_toArray]
    rfl

/-- A bar that is offered is appended to all columns as it is to the market. -/
theorem Records.offer {t : Ledger α} {m : Market α} (h : t.Records m) (b : Bar α) :
    (t.offer b).1 = (m.offer b).1 ∧ (t.offer b).2.Records (m.offer b).2 := by
  obtain ⟨bars⟩ := m
  obtain rfl : t.bars = bars := h.bars
  unfold Ledger.offer Market.offer Market.push
  cases Market.fault? ⟨t.bars⟩ b with
  | some fault => exact ⟨rfl, h⟩
  | none =>
    refine ⟨rfl, rfl, fun p => ?_, fun c => ?_⟩
    · have hpushed := foldl_pushPrice_get b p Price.all (by decide) t.prices
      rw [if_pos p.mem_all] at hpushed
      have hprice : t.prices[p.place] = Market.prices ⟨t.bars⟩ p := h.price p
      rw [Market.prices_push, ← hprice]
      exact hpushed
    · rw [Market.times_push, ← h.clock c]
      cases c <;> rfl

theorem Records.offerAll {t : Ledger α} {m : Market α} (h : t.Records m) (bars : List (Bar α)) :
    (t.offerAll bars).Records (m.offerAll bars) := by
  induction bars generalizing t m with
  | nil => exact h
  | cons b bars ih => exact ih (h.offer b).2

end Ledger

/-! ## Views -/

namespace Snapshot

/-- The view goes back from the bar looked at to the first one. -/
structure Shows (s : Snapshot α) (f : Bar α → β) (v : View β) : Prop where
  size : v.size = s.bar + 1
  ago : ∀ k ≤ s.bar, ∃ b, s.market.bars[s.bar - k]? = some b ∧ v.ago? k = some (f b)
  past : ∀ k, s.bar < k → v.ago? k = none

/-- **What is seen at a bar** goes back to the first bar. -/
theorem shows_view {s : Snapshot α} (h : s.bar < s.market.size) (f : Bar α → β) :
    s.Shows f (s.view f) := by
  have h' : s.bar < s.market.bars.size := h
  have hview : s.view f = ⟨s.bar + 1, fun i => f s.market.bars[i]⟩ := dif_pos h'
  rw [hview]
  refine ⟨rfl, fun k hk => ?_, fun k hk => ?_⟩
  · have hplace : s.bar - k < s.market.bars.size := by omega
    refine ⟨s.market.bars[s.bar - k], Array.getElem?_eq_getElem hplace, ?_⟩
    exact dif_pos (Nat.lt_succ_of_le hk)
  · exact dif_neg (by dsimp only; omega)

/-- A column has the same views as the market. -/
theorem view?_map (bars : Array (Bar α)) (f : Bar α → β) {bar : Nat} (h : bar < bars.size) :
    Series.view? ⟨bars.map f⟩ bar = some (view ⟨⟨bars⟩, bar⟩ f) := by
  have hsize : bar < (bars.map f).size := by rwa [Array.size_map]
  rw [Series.view?, dif_pos hsize, view, dif_pos h]
  exact congrArg (fun get => some (View.mk (bar + 1) get)) (funext fun i => Array.getElem_map ..)

end Snapshot

/-! ## Consistency -/

/-- All columns are as long as the bars, and each element is the value of the bar at its place. -/
structure Ledger.InStep [Arith α] (t : Ledger α) : Prop where
  price : ∀ p, (t.price p).size = t.bars.size ∧
    ∀ (j : Nat) (h : j < t.bars.size), (t.price p).values[j]? = some (p.ofBar t.bars[j])
  clock : ∀ c, (t.clock c).size = t.bars.size ∧
    ∀ (j : Nat) (h : j < t.bars.size), (t.clock c).values[j]? = some (c.ofBar t.bars[j])

theorem Ledger.Records.inStep [Arith α] {t : Ledger α} {m : Market α} (h : t.Records m) :
    t.InStep where
  price p := by
    rw [h.price, Market.prices, ← h.bars]
    exact ⟨Array.size_map, fun j hj => by simp [hj]⟩
  clock c := by
    rw [h.clock, Market.times, ← h.bars]
    exact ⟨Array.size_map, fun j hj => by simp [hj]⟩

/-- **Markets stay consistent**, whatever bars they start with and whatever bars are offered. -/
theorem Market.consistent [Arith α] (initial offered : List (Bar α)) :
    let m := (ofBars initial).offerAll offered
    let t := (Ledger.ofBars initial).offerAll offered
    (t.Records m ∧ t.InStep) ∧
      ((sorted initial).Perm initial ∧ ∃ pushed, m.Grown (sorted initial) offered pushed) ∧
      (∀ b, ((m.offer b).1 = .ok () ↔ m.Accepts b) ∧ (t.offer b).1 = (m.offer b).1 ∧
        (m.Accepts b → (m.offer b).2 = ⟨m.bars.push b⟩) ∧
        (¬ m.Accepts b → (m.offer b).2 = m ∧ (t.offer b).2 = t)) ∧
      (∀ other, initial.Perm other → initial.Pairwise (·.openTime ≠ ·.openTime) →
        ofBars initial = ofBars other ∧ Ledger.ofBars initial = Ledger.ofBars other) ∧
      ∀ bar < m.size,
        (∀ p, (t.price p).view? bar = some (Snapshot.price ⟨m, bar⟩ p) ∧
          Snapshot.Shows ⟨m, bar⟩ p.ofBar (Snapshot.price ⟨m, bar⟩ p)) ∧
        ∀ c, (t.clock c).view? bar = some (Snapshot.clock ⟨m, bar⟩ c) ∧
          Snapshot.Shows ⟨m, bar⟩ c.ofBar (Snapshot.clock ⟨m, bar⟩ c) := by
  intro m t
  have hrecords : t.Records m := (Ledger.records_ofBars initial).offerAll offered
  obtain ⟨pushed, hgrown⟩ := (grown_ofBars initial).offerAll offered
  refine ⟨⟨hrecords, hrecords.inStep⟩, ⟨sorted_perm initial, pushed, hgrown⟩, fun b => ?_,
    fun other hperm hdistinct => ?_, fun bar hbar => ⟨fun p => ?_, fun c => ?_⟩⟩
  · have hoffer := (hrecords.offer b).1
    refine ⟨offer_ok_iff, hoffer, fun h => ?_, fun h => ?_⟩
    · rw [offer_of_accepts h]
    · obtain ⟨failure, hrejected⟩ := offer_of_not_accepts h
      rw [hrejected] at hoffer ⊢
      exact ⟨rfl, Ledger.offer_error hoffer⟩
  · have hsorted := sorted_eq_of_perm hperm hdistinct
    rw [ofBars, ofBars, Ledger.ofBars, Ledger.ofBars, hsorted]
    exact ⟨rfl, rfl⟩
  · rw [hrecords.price]
    exact ⟨Snapshot.view?_map m.bars p.ofBar hbar, Snapshot.shows_view hbar _⟩
  · rw [hrecords.clock]
    exact ⟨Snapshot.view?_map m.bars c.ofBar hbar, Snapshot.shows_view hbar _⟩

/-- Two bars are loaded in the wrong order; the second of them, offered again, is rejected. -/
theorem Market.consistent_swapped :
    let first : Bar Float := ⟨0, 1, 2, 6, 2, 6, 5⟩
    let second : Bar Float := ⟨1, 2, 4, 8, 4, 8, 5⟩
    let m := ofBars [second, first]
    m = ⟨#[first, second]⟩ ∧ (m.offer second).2 = m := by
  intro first second m
  have hconsistent := consistent [second, first] []
  have hm : m = ⟨#[first, second]⟩ :=
    (hconsistent.2.2.2.1 [first, second] (.swap ..) (by decide)).1.trans
      (ofBars_ascending (by decide))
  refine ⟨hm, ((hconsistent.2.2.1 second).2.2.2 fun h => ?_).1⟩
  have hback : second ∈ m.bars.back? := by rw [hm]; rfl
  exact absurd (h.2 second hback) (by decide)

end BarScript
