import Mathlib
import BarScript.Proofs.Coherence
import BarScript.Proofs.Trailing
import BarScript.Proofs.WarmUp

/-!
# Indicator calls with a lookback of their own

`StudyCallOf.Measured`: a call over a price of the bars, with a literal length, of an indicator that
gives one number. In exact arithmetic and on finite bars such a call reports one lookback, whatever
the bar, and gives a number at just the bars with as many bars behind them, themselves included
(`StudyCallOf.Measured.perform`), with the cache and without. The cache entries that the calls leave
follow the bars (`StudyCallOf.Tracks`), so that holds from call to call.
-/

namespace BarScript

/-! ## Finite bars -/

/-- A bar with five real numbers. -/
structure Bar.Finite (b : Bar Exact) : Prop where
  opening : ∃ x, b.opening = .fin x
  high : ∃ x, b.high = .fin x
  low : ∃ x, b.low = .fin x
  close : ∃ x, b.close = .fin x
  volume : ∃ x, b.volume = .fin x

theorem Price.ofBar_finite (p : Price) {b : Bar Exact} (h : b.Finite) :
    ∃ x, p.ofBar b = .fin x := by
  obtain ⟨⟨o, ho⟩, ⟨hi, hhi⟩, ⟨lo, hlo⟩, ⟨c, hc⟩, ⟨v, hv⟩⟩ := h
  have htwo : ((2 : ℕ) : ℝ) ≠ 0 := by norm_num
  have hthree : ((3 : ℕ) : ℝ) ≠ 0 := by norm_num
  have hfour : ((4 : ℕ) : ℝ) ≠ 0 := by norm_num
  cases p
  case opening => exact ⟨o, ho⟩
  case high => exact ⟨hi, hhi⟩
  case low => exact ⟨lo, hlo⟩
  case close => exact ⟨c, hc⟩
  case volume => exact ⟨v, hv⟩
  case hl2 =>
    refine ⟨(hi + lo) / (2 : ℕ), ?_⟩
    simp only [ofBar, Bar.hl2, hhi, hlo, Exact.fin_add, Exact.numeral_eq, Exact.fin_div _ htwo]
  case hlc3 =>
    refine ⟨(hi + lo + c) / (3 : ℕ), ?_⟩
    simp only [ofBar, Bar.hlc3, hhi, hlo, hc, Exact.fin_add, Exact.numeral_eq,
      Exact.fin_div _ hthree]
  case ohlc4 =>
    refine ⟨(hi + lo + o + c) / (4 : ℕ), ?_⟩
    simp only [ofBar, Bar.ohlc4, ho, hhi, hlo, hc, Exact.fin_add, Exact.numeral_eq,
      Exact.fin_div _ hfour]

/-- Rounding neither makes a number unavailable nor available. -/
theorem Precision.isNaN_apply (p : Precision) (x : Exact) :
    Arith.isNaN (p.apply x) = Arith.isNaN x := by
  unfold apply
  cases x with
  | nan => rfl
  | inf n => rfl
  | fin x =>
    dsimp only
    split
    · rfl
    · split
      next h =>
        -- a finite number is available
        revert h
        generalize (Arith.round (Exact.fin x * Arith.powerOfTen (Int.bmod p.digits (twoTo 32))) /
          Arith.powerOfTen (Int.bmod p.digits (twoTo 32)) : Exact) = y
        cases y <;> simp [Arith.isNaN, Arith.isFinite, Exact.finite, Exact.unavailable]
      next => rfl

/-! ## A call and the cache -/

namespace Technical

variable {α σ ι : Type} [Arith α] [Streaming σ ι α] [Cacheable σ α]

/-- A streaming indicator gives the newest output of a replay or what it is given, and the entry
that it leaves follows the history that its input begins. -/
theorem streaming_tracked {t : Technical α} {handle : Option Nat} {kind : Nat → Kind}
    {init : Nat → σ} {xs : List ι} {inputs : View ι} (period : Nat) (full : Unit → α)
    (hkind : Function.Injective kind) (hbegins : inputs.toList <+: xs)
    (hentry : ∀ h e p, handle = some h → t.cache.entries.find? h = some e → e.kind = kind p →
      Follows kind init xs e) :
    ∃ (v : α) (cache : Cache α), t.streaming handle (kind period) inputs (init period) full =
        (t.precision.apply v,
          { t with cache := cache, warmup := t.warmup.observe (kind period).lookback }) ∧
      (v = lastValue (replay (init period) inputs.toList) ∨ v = full ()) ∧
      (∀ h, handle ≠ some h → cache.entries.find? h = t.cache.entries.find? h) ∧
      ∀ h e, handle = some h → cache.entries.find? h = some e →
        Follows kind init xs e ∨ t.cache.entries.find? h = some e := by
  cases handle with
  | none => exact ⟨_, _, rfl, .inr rfl, fun _ _ => rfl, nofun⟩
  | some h =>
    cases huse : t.useCache with
    | false =>
      refine ⟨full (), t.cache, ?_, .inr rfl, fun _ _ => rfl, fun _ _ _ => .inr⟩
      simp only [streaming, huse]
      simp [finish, ← huse]
    | true =>
      obtain ⟨hvalue, hothers, hfollows⟩ :=
        t.cache.evaluate_spec period hkind hbegins (fun e p => hentry h e p rfl)
      refine ⟨_, _, ?_, .inl hvalue, fun h' hne => hothers h' fun heq => hne (heq ▸ rfl), ?_⟩
      · simp only [streaming, huse, if_true, finish]
      · rintro _ e ⟨⟩ he
        exact hfollows e he

end Technical

variable {α : Type} [Arith α]

/-- The entry of a call follows what it consumes of all bars. -/
def StudyCallOf.Tracks (k : StudyCall) (ctx : Context α) (e : CacheEntry α) : Prop :=
  match k.study with
  | .sma => Follows .sma (MeanState.fresh : Nat → MeanState α) (k.input ctx) e
  | _ => k.Keeps ctx e

/-! ## Calls with a literal length -/

/-- An expression without indicator calls. -/
def Node.Quiet (n : Node) : Prop := ∀ k, .call k ∉ n.effects

/-- The length that a literal stands for, read without rounding. -/
noncomputable def Literal.length (l : Literal) : Nat := lengthOf (l.value : Exact)

/-- A whole number is its own length. -/
theorem Literal.length_ofNat {n : Nat} (h : 1 ≤ n) (hmax : n ≤ Arith.maxCount) :
    (Literal.ofNat n).length = n := by
  have hvalue : ((Literal.ofNat n).value : Exact) = .fin n := by
    show Exact.fin ((n : ℝ) * 10 ^ (0 : ℤ)) = _
    rw [zpow_zero, mul_one]
  have hone : (1 : Exact) ≤ .fin n := by
    rw [Exact.numeral_eq, Exact.fin_le]
    exact_mod_cast h
  have hcut : Exact.cut n = n := by
    rw [Exact.cut, if_pos (Nat.cast_nonneg n), Int.floor_natCast]
  have hcount : Arith.toCount (Exact.fin n) = n := by
    show (max (0 : ℤ) (min (Arith.maxCount : ℤ) (Exact.cut n))).toNat = n
    rw [hcut]
    omega
  rw [length, hvalue, lengthOf, Exact.isFinite_fin, decide_eq_true hone]
  exact hcount

/-- An expression that is true, as it is written. -/
inductive Node.Affirmed : Node → Prop
  | flag : Affirmed (.flag true)
  | number {l : Literal} (h : Arith.truth (l.value : Exact) = true) : Affirmed (.number l)

/-- The indicators of a source and a length that have a value from their lookback on, with the
kinds of their calls. -/
def lengthStudies : List (Study × (Nat → Kind)) :=
  [(.sma, .sma), (.ema, .ema), (.rma, .rma), (.rsi, .rsi), (.wma, .wma), (.dema, .dema),
    (.tema, .tema), (.change, .change), (.mom, .mom), (.dev, .dev), (.highest, .highest),
    (.lowest, .lowest), (.median, .median)]

/-- A call of an indicator that gives one number, over a price of the bars and with a literal
length of at least one, or two where one has no value. It looks back on so many bars. -/
inductive StudyCallOf.Measured : StudyCall → Nat → Prop
  | plain {study : Study} {kind : Nat → Kind} {p : Price} {l : Literal} {handle : Option Nat}
      (hstudy : (study, kind) ∈ lengthStudies) (h : 1 ≤ l.length) :
      Measured ⟨study, [.series (.price p), .number (.number l)], handle⟩ (kind l.length).lookback
  | hull {p : Price} {l : Literal} {handle : Option Nat} (h : 2 ≤ l.length) :
      Measured ⟨.hma, [.series (.price p), .number (.number l)], handle⟩
        (Kind.hma l.length).lookback
  | symmetric {p : Price} {handle : Option Nat} :
      Measured ⟨.swma, [.series (.price p)], handle⟩ Kind.swma.lookback
  | range {l : Literal} {handle : Option Nat} (h : 1 ≤ l.length) :
      Measured ⟨.atr, [.number (.number l)], handle⟩ (Kind.atr l.length).lookback
  | line {p : Price} {l : Literal} {offset : Node} {handle : Option Nat} (h : 1 ≤ l.length)
      (hoffset : offset.Quiet) :
      Measured ⟨.linreg, [.series (.price p), .number (.number l), .number offset], handle⟩ l.length
  | dispersion {study : Study} {p : Price} {l : Literal} {biased : Node} {handle : Option Nat}
      (hstudy : study = .stdev ∨ study = .variance) (h : 1 ≤ l.length) (hbiased : biased.Quiet)
      (hlength : biased.Affirmed ∨ 2 ≤ l.length) :
      Measured ⟨study, [.series (.price p), .number (.number l), .number biased], handle⟩ l.length

/-! ## One call -/

/-- A number that an argument may have: a literal has its own. -/
structure Bound.Stands (b : Bound) (v : Exact) : Prop where
  number : ∀ l, b = .number (.number l) → v = l.value
  flag : ∀ f, b = .number (.flag f) → v = Arith.ofBool f

theorem Bound.Stands.truth {n : Node} {v : Exact} (h : Bound.Stands (.number n) v)
    (hn : n.Affirmed) : Arith.truth v = true := by
  cases hn with
  | flag =>
    obtain rfl := h.flag true rfl
    have hone : (Arith.ofBool true : Exact) = .fin 1 := congrArg Exact.fin Int.cast_one
    have hzero : ¬(Exact.fin 1 == Exact.fin 0) = true := by
      rw [Exact.fin_beq]
      exact one_ne_zero
    simp [Arith.truth, hone, hzero]
  | number htrue =>
    obtain rfl := h.number _ rfl
    exact htrue

/-- What a call over `bars` bars gives that looks back on `lookback` of them: a number if there are
as many. It reports the lookback, and changes the entry of its handle only. -/
structure Technical.Measures (t : Technical Exact) (bars : Nat) (handle : Option Nat)
    (Entry : CacheEntry Exact → Prop) (lookback : Nat) (r : Exact × Technical Exact) : Prop where
  positive : 1 ≤ lookback
  numeric : Arith.isNaN r.1 = false ↔ lookback ≤ bars
  warmup : r.2.warmup = t.warmup.observe lookback
  others : ∀ h, handle ≠ some h → r.2.cache.entries.find? h = t.cache.entries.find? h
  entry : ∀ h e, handle = some h → r.2.cache.entries.find? h = some e → Entry e

namespace Technical

variable {t : Technical Exact} {bars : Nat} {handle : Option Nat} {Entry : CacheEntry Exact → Prop}

/-- A call that leaves the cache alone. -/
theorem finish_measures {kind : Kind} {ys : List Exact} {k : Nat}
    (hentry : ∀ h e, handle = some h → t.cache.entries.find? h = some e → Entry e)
    (hpositive : 1 ≤ kind.lookback) (hwarm : Warm k ys)
    (hlength : k < ys.length ↔ kind.lookback ≤ bars) :
    t.Measures bars handle Entry kind.lookback (t.finish kind (lastValue ys)) where
  positive := hpositive
  numeric := by
    show Arith.isNaN (t.precision.apply (lastValue ys)) = false ↔ _
    rw [Precision.isNaN_apply, hwarm.lastValue, hlength]
  warmup := rfl
  others _ _ := rfl
  entry := hentry

/-- A streaming call, whose value is that of a replay or what it is given. -/
theorem streaming_measures {σ ι : Type} [Streaming σ ι Exact] [Cacheable σ Exact]
    {kind : Nat → Kind} {init : Nat → σ} {xs : List ι} {inputs : View ι} {period k k' : Nat}
    {ys : List Exact} (hkind : Function.Injective kind) (hbegins : inputs.toList <+: xs)
    (hentry : ∀ h e, handle = some h → t.cache.entries.find? h = some e → Follows kind init xs e)
    (hpositive : 1 ≤ (kind period).lookback)
    (hwarm : Warm k (replay (init period) inputs.toList))
    (hlength : k < inputs.toList.length ↔ (kind period).lookback ≤ bars)
    (hfull : Warm k' ys) (hfullLength : k' < ys.length ↔ (kind period).lookback ≤ bars) :
    t.Measures bars handle (Follows kind init xs) (kind period).lookback
      (t.streaming handle (kind period) inputs (init period) fun _ => lastValue ys) := by
  obtain ⟨v, cache, hcall, hvalue, hothers, hfollows⟩ :=
    t.streaming_tracked period (fun _ => lastValue ys) hkind hbegins
      fun h e _ hh he _ => hentry h e hh he
  rw [hcall]
  refine ⟨hpositive, ?_, rfl, hothers, fun h e hh he => (hfollows h e hh he).elim id (hentry h e hh)⟩
  rw [Precision.isNaN_apply]
  rcases hvalue with rfl | rfl
  · rw [hwarm.lastValue, length_replay, hlength]
  · rw [hfull.lastValue, hfullLength]

/-- A streaming call that is a replay with the cache and without. -/
theorem replayed_measures {σ ι : Type} [Streaming σ ι Exact] [Cacheable σ Exact]
    {kind : Nat → Kind} {init : Nat → σ} {xs : List ι} {inputs : View ι} {period k : Nat}
    (hkind : Function.Injective kind) (hbegins : inputs.toList <+: xs)
    (hentry : ∀ h e, handle = some h → t.cache.entries.find? h = some e → Follows kind init xs e)
    (hpositive : 1 ≤ (kind period).lookback)
    (hwarm : Warm k (replay (init period) inputs.toList))
    (hlength : k < inputs.toList.length ↔ (kind period).lookback ≤ bars) :
    t.Measures bars handle (Follows kind init xs) (kind period).lookback
      (t.streaming handle (kind period) inputs (init period)
        fun _ => lastValue (replay (init period) inputs.toList)) :=
  streaming_measures hkind hbegins hentry hpositive hwarm hlength hwarm (by rwa [length_replay])

end Technical

/-! ## Every indicator -/

section

variable {ctx : Context Exact}

/-- The bars of a market are real numbers, and are as few as a machine can hold. -/
structure Market.Finite (m : Market Exact) : Prop where
  finite : ∀ b ∈ m.bars.toList, b.Finite
  size : m.size < twoTo 63

/-- A series of finite numbers is available from the first on. -/
theorem Market.Finite.warm (h : ctx.market.Finite) (hbar : ctx.bar < ctx.market.size) (p : Price) :
    Warm 0 (ctx.snapshot.price p).toList ∧ (ctx.snapshot.price p).toList.length = ctx.bar + 1 := by
  have hlist : (ctx.snapshot.price p).toList =
      (ctx.market.bars.toList.take (ctx.bar + 1)).map p.ofBar := by
    rw [Snapshot.price, Snapshot.toList_view]
    exact if_pos hbar
  rw [hlist]
  constructor
  · refine .of_finite fun y hy => ?_
    obtain ⟨b, hb, rfl⟩ := List.mem_map.1 hy
    exact p.ofBar_finite (h.finite b (List.mem_of_mem_take hb))
  · rw [List.length_map, List.length_take, Array.length_toList]
    exact Nat.min_eq_left hbar

theorem Warm.newest {xs : List Exact} (h : Warm 0 xs) (n : Nat) : Warm 0 (newest n xs) :=
  .of_finite fun y hy => h.finite y (List.mem_of_mem_drop hy)

namespace Technical

variable {t : Technical Exact} {source : View Exact} {bars n : Nat} {handle : Option Nat}
variable {Entry : CacheEntry Exact → Prop}
variable (hentry : ∀ h e, handle = some h → t.cache.entries.find? h = some e → Entry e)
variable (hsource : Warm 0 source.toList) (hbars : source.toList.length = bars)
variable (hn : 1 ≤ n)

section

include hentry hsource hbars

/-- An indicator of the newest `m` values. -/
theorem newest_measures {m k : Nat} {kind : Kind} {F : List Exact → List Exact}
    (hwarm : ∀ ys, Warm 0 ys → Warm k (F ys)) (hlength : ∀ ys, (F ys).length = ys.length)
    (hpositive : 1 ≤ kind.lookback) (hlookback : k < m ∧ k < bars ↔ kind.lookback ≤ bars) :
    t.Measures bars handle Entry kind.lookback
      (t.finish kind (lastValue (F (newest m source.toList)))) := by
  refine finish_measures hentry hpositive (hwarm _ (hsource.newest m)) ?_
  rw [hlength, length_newest, hbars, ← hlookback]
  exact Nat.lt_min

include hn

/-- An indicator of the newest values that looks back on as many. -/
theorem window_measures {kind : Kind} {F : List Exact → List Exact} (hkind : kind.lookback = n)
    (hwarm : ∀ ys, Warm 0 ys → Warm (n - 1) (F ys)) (hlength : ∀ ys, (F ys).length = ys.length) :
    t.Measures bars handle Entry kind.lookback
      (t.finish kind (lastValue (F (newest n source.toList)))) := by
  refine newest_measures hentry hsource hbars hwarm hlength ?_ ?_
  all_goals rw [hkind]
  · exact hn
  · omega

theorem wma_measures :
    t.Measures bars handle Entry (Kind.wma n).lookback (t.wma source n) := by
  refine window_measures (F := fun ys => BarScript.wma ys n) hentry hsource hbars hn rfl ?_
    fun _ => length_windowed _ _ _
  intro ys hys
  have hwarm := warm_wma hn hys
  rwa [Nat.zero_add] at hwarm

theorem linreg_measures (offset : Int) :
    t.Measures bars handle Entry n (t.linreg source n offset) :=
  window_measures (F := fun ys => BarScript.linreg ys n offset) hentry hsource hbars hn
    (rfl : (Kind.linreg n offset).lookback = n) (fun _ => warm_linreg hn offset)
    fun _ => length_windowed _ _ _

theorem stdev_measures {biased : Bool} (hbiased : biased = false → 2 ≤ n) :
    t.Measures bars handle Entry n (t.stdev source n biased) :=
  window_measures (F := fun ys => BarScript.stdev ys n biased) hentry hsource hbars hn
    (rfl : (Kind.stdev n biased).lookback = n) (fun _ => warm_stdev hn hbiased)
    fun _ => length_windowed _ _ _

theorem variance_measures {biased : Bool} (hbiased : biased = false → 2 ≤ n) :
    t.Measures bars handle Entry n (t.variance source n biased) :=
  window_measures (F := fun ys => BarScript.variance ys n biased) hentry hsource hbars hn
    (rfl : (Kind.variance n biased).lookback = n) (fun _ => warm_variance hn hbiased)
    fun _ => length_windowed _ _ _

/-- Momentum is the same. -/
theorem change_measures (hlimit : bars < twoTo 63) :
    t.Measures bars handle Entry (Kind.change n).lookback (t.change source n) := by
  have htwo : twoTo 63 = 9223372036854775808 := rfl
  have hmax : Arith.maxCount = 18446744073709551615 := rfl
  have hcount : Arith.addCount n 1 = min (n + 1) Arith.maxCount := rfl
  have hkind : (Kind.change n).lookback = Arith.addCount n 1 := rfl
  refine newest_measures (F := fun ys => BarScript.change ys n) hentry hsource hbars
    (fun _ => warm_change hn) (barwise_lagged n _).length ?_ ?_
  all_goals omega

theorem dema_measures (hlimit : bars < twoTo 63) :
    t.Measures bars handle Entry (Kind.dema n).lookback (t.dema source n) := by
  have htwo : twoTo 63 = 9223372036854775808 := rfl
  have hmax : Arith.maxCount = 18446744073709551615 := rfl
  have hkind : (Kind.dema n).lookback = min (n * 2) Arith.maxCount - 1 := rfl
  refine finish_measures hentry ?_ (warm_dema hn hsource) ?_
  · omega
  · rw [(barwise_dema n).length, hbars]
    omega

theorem tema_measures (hlimit : bars < twoTo 63) :
    t.Measures bars handle Entry (Kind.tema n).lookback (t.tema source n) := by
  have htwo : twoTo 63 = 9223372036854775808 := rfl
  have hmax : Arith.maxCount = 18446744073709551615 := rfl
  have hkind : (Kind.tema n).lookback = min (n * 3) Arith.maxCount - 2 := rfl
  refine finish_measures hentry ?_ (warm_tema hn hsource) ?_
  · omega
  · rw [(barwise_tema n).length, hbars]
    omega

omit hn

theorem hma_measures (hlimit : bars < twoTo 63) (hn : 2 ≤ n) :
    t.Measures bars handle Entry (Kind.hma n).lookback (t.hma source n) := by
  have htwo : twoTo 63 = 9223372036854775808 := rfl
  have hmax : Arith.maxCount = 18446744073709551615 := rfl
  have hroot : 1 ≤ hullSmoothing n := one_le_hullSmoothing (Nat.le_trans (Nat.le_succ 1) hn)
  have hkind : (Kind.hma n).lookback = hullLookback n := rfl
  have hwarm := fun ys (hys : Warm 0 ys) => warm_hma hn hys
  have hhull : hullLookback n = min (n + (hullSmoothing n - 1)) Arith.maxCount := by
    unfold hullLookback
    generalize hullSmoothing n = smoothing at hroot ⊢
    exact if_neg (by omega)
  refine newest_measures (F := fun ys => BarScript.hma ys n) (m := hullLookback n) hentry hsource
    hbars hwarm (barwise_hma n).length ?_ ?_
  all_goals
    rw [hkind, hhull]
    generalize hullSmoothing n = smoothing at hroot ⊢
    omega

end

section

include hsource hbars hn

theorem sma_measures {xs : List Exact} (hbegins : source.toList <+: xs)
    (hentry : ∀ h e, handle = some h → t.cache.entries.find? h = some e →
      Follows .sma MeanState.fresh xs e) :
    t.Measures bars handle (Follows .sma MeanState.fresh xs) (Kind.sma n).lookback
      (t.sma source n handle) := by
  have hkind : (Kind.sma n).lookback = n := rfl
  have hmin : min n bars = Nat.min n bars := rfl
  refine streaming_measures (fun _ _ => Kind.sma.inj) hbegins hentry hn (warm_sma hn hsource) ?_
    (warm_sma hn (hsource.newest n)) ?_
  · rw [hbars, hkind]
    omega
  · rw [BarScript.sma, length_replay, length_newest, hbars, hkind]
    omega

theorem ema_measures {xs : List Exact} (hbegins : source.toList <+: xs)
    (hentry : ∀ h e, handle = some h → t.cache.entries.find? h = some e →
      Follows .ema SmoothedState.ema xs e) :
    t.Measures bars handle (Follows .ema SmoothedState.ema xs) (Kind.ema n).lookback
      (t.ema source n handle) := by
  have hkind : (Kind.ema n).lookback = n := rfl
  refine replayed_measures (fun _ _ => Kind.ema.inj) hbegins hentry hn (warm_ema hn hsource) ?_
  rw [hbars, hkind]
  omega

theorem rma_measures {xs : List Exact} (hbegins : source.toList <+: xs)
    (hentry : ∀ h e, handle = some h → t.cache.entries.find? h = some e →
      Follows .rma SmoothedState.rma xs e) :
    t.Measures bars handle (Follows .rma SmoothedState.rma xs) (Kind.rma n).lookback
      (t.rma source n handle) := by
  have hkind : (Kind.rma n).lookback = n := rfl
  refine replayed_measures (fun _ _ => Kind.rma.inj) hbegins hentry hn (warm_rma hn hsource) ?_
  rw [hbars, hkind]
  omega

theorem rsi_measures (hlimit : bars < twoTo 63) {xs : List Exact} (hbegins : source.toList <+: xs)
    (hentry : ∀ h e, handle = some h → t.cache.entries.find? h = some e →
      Follows .rsi StrengthState.fresh xs e) :
    t.Measures bars handle (Follows .rsi StrengthState.fresh xs) (Kind.rsi n).lookback
      (t.rsi source n handle) := by
  have htwo : twoTo 63 = 9223372036854775808 := rfl
  have hmax : Arith.maxCount = 18446744073709551615 := rfl
  have hkind : (Kind.rsi n).lookback = min (n + 1) Arith.maxCount := rfl
  refine replayed_measures (fun _ _ => Kind.rsi.inj) hbegins hentry ?_ (warm_rsi hn hsource) ?_
  · omega
  · rw [hbars]
    omega

end

/-- The average true range of finite bars. -/
theorem atr_measures {ctx : Context Exact} (hmarket : ctx.market.Finite)
    (hbar : ctx.bar < ctx.market.size) (hn : 1 ≤ n)
    (hentry : ∀ h e, handle = some h → ctx.cache.entries.find? h = some e →
      Follows .atr RangeState.fresh ctx.reaches e) :
    ctx.technical.Measures (ctx.bar + 1) handle (Follows .atr RangeState.fresh ctx.reaches)
      (Kind.atr n).lookback (ctx.technical.atr n handle) := by
  let reaches := ctx.snapshot.view fun b => (⟨b.high, b.low, b.close⟩ : Reach Exact)
  have hlist : reaches.toList =
      (ctx.market.bars.toList.take (ctx.bar + 1)).map fun b => ⟨b.high, b.low, b.close⟩ := by
    rw [Snapshot.toList_view]
    exact if_pos hbar
  have hlength : reaches.toList.length = ctx.bar + 1 := by
    rw [hlist, List.length_map, List.length_take, Array.length_toList]
    exact Nat.min_eq_left hbar
  have hwarm : Warm (n - 1) (replay (RangeState.fresh n : RangeState Exact) reaches.toList) := by
    refine warm_ranges hn fun r hr => ?_
    rw [hlist] at hr
    obtain ⟨b, hb, rfl⟩ := List.mem_map.1 hr
    obtain ⟨-, ⟨high, hhigh⟩, ⟨low, hlow⟩, ⟨close, hclose⟩, -⟩ :=
      hmarket.finite b (List.mem_of_mem_take hb)
    exact ⟨high, low, close, by rw [hhigh, hlow, hclose]⟩
  have hkind : (Kind.atr n).lookback = n := rfl
  have hzip : BarScript.atr (ctx.technical.prices .high) (ctx.technical.prices .low)
      (ctx.technical.prices .close) n = replay (RangeState.fresh n) reaches.toList :=
    congrArg (replay _) ctx.technical.zip_prices
  rw [atr, hzip]
  have hlookback : n - 1 < reaches.toList.length ↔ (Kind.atr n).lookback ≤ ctx.bar + 1 := by
    rw [hlength, hkind]
    omega
  exact replayed_measures (fun _ _ => Kind.atr.inj) (ctx.snapshot.view_prefix _) hentry hn hwarm
    hlookback

end Technical

/-- The numbers of a call with a literal length in the second place. -/
theorem Bound.stands_length {b : Bound} {l : Literal} {rest : List Bound} {nums : List Exact}
    (h : List.Forall₂ Bound.Stands (b :: .number (.number l) :: rest) nums) :
    ∃ v vs, nums = v :: l.value :: vs ∧ List.Forall₂ Bound.Stands rest vs := by
  obtain ⟨v, _, -, htail, rfl⟩ := List.forall₂_cons_left_iff.1 h
  obtain ⟨length, vs, hlength, hrest, rfl⟩ := List.forall₂_cons_left_iff.1 htail
  obtain rfl := hlength.number l rfl
  exact ⟨v, vs, rfl, hrest⟩

/-- **A measured call** gives one number, which is available from its lookback on. -/
theorem StudyCallOf.Measured.perform {k : StudyCall} {n : Nat} (hk : k.Measured n)
    (hmarket : ctx.market.Finite) (hbar : ctx.bar < ctx.market.size) {nums : List Exact}
    (hnums : List.Forall₂ Bound.Stands k.args nums)
    (hentry : ∀ h e, k.handle = some h → ctx.cache.entries.find? h = some e → k.Tracks ctx e) :
    ∃ r : Exact × Technical Exact, k.perform nums ctx = ([r.1], r.2) ∧
      ctx.technical.Measures (ctx.bar + 1) k.handle (k.Tracks ctx) n r := by
  have hlimit : ctx.bar + 1 < twoTo 63 := Nat.lt_of_le_of_lt hbar hmarket.size
  have hbegins := k.input_prefix ctx
  cases hk with
  | @plain study kind p l handle hstudy h =>
    obtain ⟨hwarm, hlength⟩ := hmarket.warm hbar p
    obtain ⟨v, vs, rfl, -⟩ := Bound.stands_length hnums
    have window {kind : Kind} {F : List Exact → List Exact} (hkind : kind.lookback = l.length) :=
      ctx.technical.window_measures (F := F) hentry hwarm hlength h hkind
    simp only [lengthStudies, List.mem_cons, Prod.mk.injEq, List.not_mem_nil, or_false] at hstudy
    rcases hstudy with ⟨rfl, rfl⟩ | ⟨rfl, rfl⟩ | ⟨rfl, rfl⟩ | ⟨rfl, rfl⟩ | ⟨rfl, rfl⟩ | ⟨rfl, rfl⟩ |
      ⟨rfl, rfl⟩ | ⟨rfl, rfl⟩ | ⟨rfl, rfl⟩ | ⟨rfl, rfl⟩ | ⟨rfl, rfl⟩ | ⟨rfl, rfl⟩ | ⟨rfl, rfl⟩
    · exact ⟨_, rfl, Technical.sma_measures hwarm hlength h hbegins hentry⟩
    · exact ⟨_, rfl, Technical.ema_measures hwarm hlength h hbegins hentry⟩
    · exact ⟨_, rfl, Technical.rma_measures hwarm hlength h hbegins hentry⟩
    · exact ⟨_, rfl, Technical.rsi_measures hwarm hlength h hlimit hbegins hentry⟩
    · exact ⟨_, rfl, Technical.wma_measures hentry hwarm hlength h⟩
    · exact ⟨_, rfl, Technical.dema_measures hentry hwarm hlength h hlimit⟩
    · exact ⟨_, rfl, Technical.tema_measures hentry hwarm hlength h hlimit⟩
    · exact ⟨_, rfl, Technical.change_measures hentry hwarm hlength h hlimit⟩
    · exact ⟨_, rfl, Technical.change_measures hentry hwarm hlength h hlimit⟩
    · exact ⟨_, rfl, window (F := (dev · l.length)) rfl (fun _ => warm_dev h)
        fun _ => length_windowed _ _ _⟩
    · exact ⟨_, rfl, window (F := (highest · l.length)) rfl (fun _ => warm_highest h)
        fun _ => length_windowed _ _ _⟩
    · exact ⟨_, rfl, window (F := (lowest · l.length)) rfl (fun _ => warm_lowest h)
        fun _ => length_windowed _ _ _⟩
    · exact ⟨_, rfl, window (F := (median · l.length)) rfl (fun _ => warm_median h)
        fun _ => length_windowed _ _ _⟩
  | @hull p l handle h =>
    obtain ⟨hwarm, hlength⟩ := hmarket.warm hbar p
    obtain ⟨v, vs, rfl, -⟩ := Bound.stands_length hnums
    exact ⟨_, rfl, Technical.hma_measures hentry hwarm hlength hlimit h⟩
  | @symmetric p handle =>
    obtain ⟨hwarm, hlength⟩ := hmarket.warm hbar p
    exact ⟨_, rfl, ctx.technical.window_measures (F := swma) hentry hwarm hlength (n := 4)
      (by omega) rfl (fun _ => warm_swma) fun _ => length_windowed _ _ _⟩
  | @range l handle h =>
    obtain ⟨v, _, hv, -, rfl⟩ := List.forall₂_cons_left_iff.1 hnums
    obtain rfl := hv.number l rfl
    exact ⟨_, rfl, Technical.atr_measures hmarket hbar h hentry⟩
  | @line p l offset handle h hoffset =>
    obtain ⟨hwarm, hlength⟩ := hmarket.warm hbar p
    obtain ⟨v, vs, rfl, -⟩ := Bound.stands_length hnums
    exact ⟨_, rfl, Technical.linreg_measures hentry hwarm hlength h _⟩
  | @dispersion study p l biased handle hstudy h hbiased hcount =>
    obtain ⟨hwarm, hlength⟩ := hmarket.warm hbar p
    obtain ⟨v, vs, rfl, hrest⟩ := Bound.stands_length hnums
    obtain ⟨w, _, hw, -, rfl⟩ := List.forall₂_cons_left_iff.1 hrest
    have hunbiased : Arith.truth w = false → 2 ≤ l.length := by
      intro hfalse
      refine hcount.resolve_left fun haffirmed => ?_
      have htrue := hw.truth haffirmed
      rw [hfalse] at htrue
      cases htrue
    rcases hstudy with rfl | rfl
    · exact ⟨_, rfl, Technical.stdev_measures hentry hwarm hlength h hunbiased⟩
    · exact ⟨_, rfl, Technical.variance_measures hentry hwarm hlength h hunbiased⟩

end

end BarScript
