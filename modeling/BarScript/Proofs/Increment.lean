import BarScript.Arith.Double
import BarScript.Proofs.CacheProtocol
import BarScript.Proofs.Feeding
import BarScript.Proofs.InRange

/-!
# One input more at every bar

A call through the cache continues its entry if it has one input more than the entry has consumed. At
every bar of a run each call has one input more than at the bar before: the market has a bar more, and
so has every slot that has been written (`StudyCallOf.inputSize`). So a call that is made at every bar
makes its entry at the first one and continues it at each of the others; `Along` is what holds in
between. It follows that the run never replays anything (`cache_continues`).
-/

namespace BarScript

/-! ## Calls through the cache -/

/-- The family of the states of a cached indicator. -/
def Study.family : Study → Family
  | .sma => .mean
  | .ema | .rma => .smoothed
  | .rsi => .strength
  | _ => .range

/-- The kind of the calls of a cached indicator with a length. -/
def Study.kind (s : Study) (length : Nat) : Kind :=
  match s with
  | .sma => .sma length
  | .ema => .ema length
  | .rma => .rma length
  | .rsi => .rsi length
  | _ => .atr length

/-- The place of the length among the arguments of an indicator. -/
def Study.lengthAt (s : Study) : Nat := s.params.findIdx (·.name == "length")

/-- The length of a call is a literal. -/
def StudyCallOf.HasLength (k : StudyCall) (l : Literal) : Prop :=
  k.args[k.study.lengthAt]? = some (.number (.number l))

/-- Every call through the cache has a literal length. -/
def LiteralLengths (es : List Effect) : Prop :=
  ∀ k, .call k ∈ es → k.handle ≠ none → ∃ l, k.HasLength l

variable {α : Type} [Arith α]

/-- How many inputs a call through the cache has. -/
def StudyCallOf.inputSize (k : StudyCall) (c : Context α) : Nat :=
  if k.study.fed then ((k.args[0]?.bind (·.view? c)).getD .empty).size
  else (c.snapshot.view fun b => (⟨b.high, b.low, b.close⟩ : Reach α)).size

namespace StudyCallOf

variable {k : StudyCall} {c : Context α}

/-- A call with a handle asks the cache for its kind, with all of its inputs. -/
theorem perform_cached (hcached : k.study.cached = true) {h : Nat} (hh : k.handle = some h)
    (nums : List α) (huse : c.useCache = true) :
    ∃ (inputs : View (k.study.family.Input α)) (init : k.study.family.State α),
      inputs.size = k.inputSize c ∧ (k.perform nums c).2.cache = (c.cache.evaluate h
        (k.study.kind (lengthOf (nums.getD k.study.lengthAt Arith.nan))) inputs init).2 := by
  obtain ⟨study, args, handle⟩ := k
  obtain rfl : handle = some h := hh
  have huse' : c.technical.useCache = true := huse
  let source : View α := (args[0]?.bind (·.view? c)).getD .empty
  let length (i : Nat) : Nat := lengthOf (nums.getD i Arith.nan)
  cases study <;> cases hcached
  · refine ⟨source, (MeanState.fresh (length 1) : MeanState α), rfl, ?_⟩
    simp only [perform, Technical.sma, Technical.streaming, huse', if_true]
    rfl
  · refine ⟨source, (SmoothedState.ema (length 1) : SmoothedState α), rfl, ?_⟩
    simp only [perform, Technical.ema, Technical.streaming, huse', if_true]
    rfl
  · refine ⟨source, (SmoothedState.rma (length 1) : SmoothedState α), rfl, ?_⟩
    simp only [perform, Technical.rma, Technical.streaming, huse', if_true]
    rfl
  · refine ⟨source, (StrengthState.fresh (length 1) : StrengthState α), rfl, ?_⟩
    simp only [perform, Technical.rsi, Technical.streaming, huse', if_true]
    rfl
  · refine ⟨c.snapshot.view fun b => ⟨b.high, b.low, b.close⟩,
      (RangeState.fresh (length 0) : RangeState α), rfl, ?_⟩
    simp only [perform, Technical.atr, Technical.streaming, huse', if_true]
    rfl

/-- Any other call leaves the cache alone. -/
theorem perform_uncached (hh : k.handle = none) (nums : List α) :
    (k.perform nums c).2.cache = c.cache := by
  obtain ⟨study, args, handle⟩ := k
  obtain rfl : handle = none := hh
  cases study
  case vwap =>
    simp only [perform]
    split <;> rfl
  all_goals rfl

theorem first_of_fits (hfits : k.Fits) (hfed : k.study.fed = true) :
    ∃ s, k.args[0]? = some (.series s) := by
  obtain ⟨study, args, handle⟩ := k
  obtain ⟨p, ps, hparams, hkind⟩ : ∃ p ps, study.params = p :: ps ∧ p.kind = .series := by
    cases study <;> first | exact ⟨_, _, rfl, rfl⟩ | cases hfed
  unfold Fits at hfits
  rw [hparams] at hfits
  obtain ⟨b, bs, hadmits, -, rfl⟩ := List.forall₂_cons_left_iff.1 hfits
  rw [hkind] at hadmits
  cases b with
  | series s => exact ⟨s, rfl⟩
  | number n => exact hadmits.elim
  | absent => exact hadmits.elim

/-- A call that consumes a slot has all of it as input. -/
theorem inputSize_of_feed {a : Bank × Nat} (h : k.feed? = some a) :
    k.inputSize c = (c.stores.slot a).size := by
  unfold feed? at h
  dsimp only at h
  split at h
  · rename_i s hfed hfirst
    rw [inputSize, if_pos hfed, hfirst]
    exact congrArg View.size (Faithful.view_eq h c)
  · cases h

/-- Any other call has the bars up to the current one. -/
theorem inputSize_of_market (hfits : k.Fits) (h : k.feed? = none)
    (hbar : c.bar < c.market.size) : k.inputSize c = c.bar + 1 := by
  unfold inputSize
  split
  · rename_i hfed
    obtain ⟨s, hfirst⟩ := first_of_fits hfits hfed
    have hslot : s.slot? = none := by simpa only [feed?, hfed, hfirst] using h
    rw [hfirst]
    cases s with
    | price p => exact Snapshot.size_view hbar _
    | slot bank id => cases hslot
    | computed id value => cases hslot
  · exact Snapshot.size_view hbar _

/-- There is input if the variable that is the source has been set, and a computed series has been
written. -/
theorem inputSize_pos (hfits : k.Fits) (hbar : c.bar < c.market.size)
    (hset : ∀ a, (Effect.call k).bareSource? = some a → 0 < (c.stores.slot a).size)
    {nums : List α} (hsupplied : k.Supplied nums c) : 0 < k.inputSize c := by
  cases hfeed : k.feed? with
  | none =>
    rw [inputSize_of_market hfits hfeed hbar]
    exact Nat.succ_pos _
  | some a =>
    rw [inputSize_of_feed hfeed]
    unfold feed? at hfeed
    dsimp only at hfeed
    split at hfeed
    · rename_i s hfed hfirst
      cases s with
      | price p => cases hfeed
      | slot bank id =>
        cases hfeed
        exact hset _ (by simp only [Effect.bareSource?, hfed, hfirst])
      | computed id value =>
        cases hfeed
        exact hsupplied.written id value (List.mem_of_getElem? hfirst)
    · cases hfeed

end StudyCallOf

/-! ## One call -/

/-- The entry is of a kind and a family, and has consumed `n` inputs. -/
structure CacheEntry.Serves (e : CacheEntry α) (kind : Kind) (family : Family) (n : Nat) : Prop where
  kind : e.kind = kind
  processed : e.processed = n
  state : ∃ s : family.State α, Cacheable.unwrap e.state = some s

namespace Cache

variable {c : Cache α} {h n : Nat} {kind : Kind} {family : Family}
variable {inputs : View (family.Input α)}

omit [Arith α] in
theorem exists_current {β : Type} {v : View β} (hv : 0 < v.size) : ∃ x, v.current? = some x :=
  ⟨_, dif_pos hv⟩

/-- **The first call** makes an entry, and counts as nothing. -/
theorem evaluate_first (hnone : c.entries.find? h = none) (hsize : 0 < inputs.size)
    (init : family.State α) : ∃ e : CacheEntry α, e.Serves kind family inputs.size ∧
      (c.evaluate h kind inputs init).2 =
        ⟨c.entries.insert h e, c.warmHits, c.coldRecomputes⟩ := by
  obtain ⟨x, hx⟩ := exists_current hsize
  have hwarm : (c.warm? h kind inputs.size : Option (CacheEntry α × family.State α)) = none := by
    rw [warm?, hnone]
  let replayed := feed init inputs.toList
  refine ⟨⟨kind, inputs.size, replayed.1.toArray, Cacheable.wrap replayed.2⟩,
    ⟨rfl, rfl, replayed.2, Cacheable.unwrap_wrap _⟩, ?_⟩
  rw [evaluate, hx]
  dsimp only
  rw [hwarm]
  simp [recompute, hnone, replayed]

/-- **A call with one input more** than its entry continues it. -/
theorem evaluate_next {e : CacheEntry α} (hfind : c.entries.find? h = some e)
    (he : e.Serves kind family n) (hsize : inputs.size = n + 1) (init : family.State α) :
    ∃ e' : CacheEntry α, e'.Serves kind family inputs.size ∧
      (c.evaluate h kind inputs init).2 =
        ⟨c.entries.insert h e', c.warmHits + 1, c.coldRecomputes⟩ := by
  obtain ⟨x, hx⟩ := exists_current (hsize ▸ Nat.succ_pos n : 0 < inputs.size)
  obtain ⟨s, hs⟩ := he.state
  have hwarm : (c.warm? h kind inputs.size : Option (CacheEntry α × family.State α)) =
      some (e, s) := by
    rw [warm?, hfind]
    dsimp only
    rw [if_pos ⟨he.kind, by rw [he.processed, hsize]⟩, hs, Option.map_some]
  let answer := Streaming.next s x
  refine ⟨⟨e.kind, e.processed + 1, e.results.push answer.1, Cacheable.wrap answer.2⟩,
    ⟨he.kind, ?_, answer.2, Cacheable.unwrap_wrap _⟩, ?_⟩
  · rw [hsize, ← he.processed]
  · rw [evaluate, hx]
    dsimp only
    rw [hwarm]
    rfl

end Cache

/-- The entry of a handle is of the kind of the call, and has consumed `n` inputs. -/
def StudyCallOf.HasEntry (k : StudyCall) (c : Context α) (h n : Nat) : Prop :=
  ∃ e l, c.cache.entries.find? h = some e ∧ k.HasLength l ∧
    e.Serves (k.study.kind (lengthOf (l.value : α))) k.study.family n

/-- Before a call that has been made at `t` bars: it has one input more than its entry, if it has one
at all. -/
def StudyCallOf.Due (k : StudyCall) (t : Nat) (c : Context α) (h : Nat) : Prop :=
  if t = 0 then c.cache.entries.find? h = none
  else ∃ n, k.HasEntry c h n ∧ k.inputSize c = n + 1

/-- After a call: its entry has consumed all of its input. -/
def StudyCallOf.Made (k : StudyCall) (c : Context α) (h : Nat) : Prop :=
  0 < k.inputSize c ∧ k.HasEntry c h (k.inputSize c)

section

variable {k : StudyCall} {t h n : Nat} {c c' : Context α}

theorem StudyCallOf.HasEntry.congr (hentry : k.HasEntry c h n)
    (hfind : c'.cache.entries.find? h = c.cache.entries.find? h) : k.HasEntry c' h n := by
  unfold HasEntry
  rwa [hfind]

theorem StudyCallOf.Due.congr (hdue : k.Due t c h)
    (hfind : c'.cache.entries.find? h = c.cache.entries.find? h)
    (hsize : 0 < k.inputSize c → k.inputSize c' = k.inputSize c) : k.Due t c' h := by
  unfold Due at hdue ⊢
  split at hdue
  · rwa [if_pos ‹_›, hfind]
  · rw [if_neg ‹_›]
    obtain ⟨n, hentry, hn⟩ := hdue
    exact ⟨n, hentry.congr hfind, (hsize (hn ▸ Nat.succ_pos n)).trans hn⟩

theorem StudyCallOf.Made.congr (hmade : k.Made c h)
    (hfind : c'.cache.entries.find? h = c.cache.entries.find? h)
    (hsize : 0 < k.inputSize c → k.inputSize c' = k.inputSize c) : k.Made c' h := by
  obtain ⟨hpos, hentry⟩ := hmade
  unfold Made
  rw [hsize hpos]
  exact ⟨hpos, hentry.congr hfind⟩

end

/-- **A call that is due** leaves an entry for all of its input. It counts as a hit if it has been made
before. -/
theorem StudyCallOf.Due.perform {k : StudyCall} {t h : Nat} {c : Context α} (hdue : k.Due t c h)
    (hcached : k.study.cached = true) (hh : k.handle = some h) (huse : c.useCache = true)
    {l : Literal} (hl : k.HasLength l) {nums : List α} (hsupplied : k.Supplied nums c)
    (hpos : 0 < k.inputSize c) : ∃ e : CacheEntry α,
      e.Serves (k.study.kind (lengthOf (l.value : α))) k.study.family (k.inputSize c) ∧
        (k.perform nums c).2.cache = ⟨c.cache.entries.insert h e,
          c.cache.warmHits + (if t = 0 then 0 else 1), c.cache.coldRecomputes⟩ := by
  obtain ⟨inputs, init, hsize, hcache⟩ := perform_cached hcached hh nums huse
  rw [hsupplied.literal _ l hl] at hcache
  rw [hcache, ← hsize]
  unfold Due at hdue
  split at hdue
  · rw [if_pos ‹_›, Nat.add_zero]
    exact Cache.evaluate_first hdue (hsize ▸ hpos) init
  · rw [if_neg ‹_›]
    obtain ⟨n, ⟨e, l', hfind, hl', hserves⟩, hn⟩ := hdue
    obtain rfl : l' = l := by
      have := hl'.symm.trans hl
      simpa using this
    exact Cache.evaluate_next hfind hserves (hsize.trans hn) init

/-! ## Along a bar -/

/-- The second context has the same of what calls through the cache depend on. -/
structure Context.Frames (c c' : Context α) : Prop where
  market : c'.market = c.market
  bar : c'.bar = c.bar
  useCache : c'.useCache = c.useCache
  cache : c'.cache = c.cache
  slot : ∀ a, 0 < (c.stores.slot a).size → (c'.stores.slot a).size = (c.stores.slot a).size

/-- At a point of the bar `b`, after `t` bars of a run with the cache: the effects `es` are still to
come, and the variables in `seen` have been set. -/
structure Along (p : Program) (m : Market α) (b t : Nat) (seen : Bank × Nat → Prop)
    (es : List Effect) (c : Context α) : Prop where
  pending : es <:+ p.effects
  fed : FedAfter seen es
  set : ∀ a, seen a → 0 < (c.stores.slot a).size
  market : c.market = m
  bar : c.bar = b
  within : b < m.size
  useCache : c.useCache = true
  due : ∀ k h, .call k ∈ es → k.handle = some h → k.Due t c h
  made : ∀ k h, .call k ∈ p.effects → .call k ∉ es → k.handle = some h → k.Made c h
  ascending : c.cache.entries.Ascending
  handles : ∀ h ∈ c.cache.entries.keys, h ∈ p.effects.filterMap Effect.handle?
  hits : c.cache.warmHits + (if t = 0 then 0 else (es.filterMap Effect.handle?).length) =
    p.summary.cacheSites * t
  replays : c.cache.coldRecomputes = 0

namespace Along

variable {p : Program} {m : Market α} {b t : Nat} {seen : Bank × Nat → Prop}
variable {e : Effect} {es : List Effect} {c c' : Context α} {k : StudyCall} {h : Nat}

theorem bar_lt (hc : Along p m b t seen es c) : c.bar < c.market.size := by
  rw [hc.bar, hc.market]
  exact hc.within

theorem mem (hc : Along p m b t seen es c) (he : e ∈ es) : e ∈ p.effects := hc.pending.subset he

theorem inputSize_frame (hc : Along p m b t seen es c) (hfits : k.Fits) (hframes : c.Frames c')
    (hpos : 0 < k.inputSize c) : k.inputSize c' = k.inputSize c := by
  cases hfeed : k.feed? with
  | none =>
    have hbar : c'.bar < c'.market.size := by
      rw [hframes.bar, hframes.market]
      exact hc.bar_lt
    rw [StudyCallOf.inputSize_of_market hfits hfeed hc.bar_lt,
      StudyCallOf.inputSize_of_market hfits hfeed hbar, hframes.bar]
  | some a =>
    rw [StudyCallOf.inputSize_of_feed hfeed] at hpos ⊢
    rw [StudyCallOf.inputSize_of_feed hfeed]
    exact hframes.slot a hpos

/-- What changes nothing for the calls changes nothing here. -/
theorem frame (hp : p.WellFed) (hc : Along p m b t seen es c) (hframes : c.Frames c') :
    Along p m b t seen es c' := by
  have hfind : ∀ h, c'.cache.entries.find? h = c.cache.entries.find? h := fun h => by
    rw [hframes.cache]
  have hsize : ∀ k, .call k ∈ p.effects → 0 < k.inputSize c → k.inputSize c' = k.inputSize c :=
    fun k hk => hc.inputSize_frame (hp.fits k hk) hframes
  exact {
    pending := hc.pending
    fed := hc.fed
    set := fun a ha => (hframes.slot a (hc.set a ha)).symm ▸ hc.set a ha
    market := hframes.market.trans hc.market
    bar := hframes.bar.trans hc.bar
    within := hc.within
    useCache := hframes.useCache.trans hc.useCache
    due := fun k h hk hh => (hc.due k h hk hh).congr (hfind h) (hsize k (hc.mem hk))
    made := fun k h hk hes hh => (hc.made k h hk hes hh).congr (hfind h) (hsize k hk)
    ascending := hframes.cache.symm ▸ hc.ascending
    handles := hframes.cache.symm ▸ hc.handles
    hits := hframes.cache.symm ▸ hc.hits
    replays := hframes.cache.symm ▸ hc.replays }

/-- An effect that is no call through the cache is behind. -/
theorem skip (hc : Along p m b t seen (e :: es) c) (hcall : e.handle? = none)
    (hslot : ∀ a, e.slot? = some a → a.1 ≠ .computed → 0 < (c.stores.slot a).size) :
    Along p m b t (fun a => e.slot? = some a ∧ a.1 ≠ .computed ∨ seen a) es c where
  pending := (List.suffix_cons _ _).trans hc.pending
  fed := hc.fed.2
  set a ha := ha.elim (fun h => hslot a h.1 h.2) (hc.set a)
  market := hc.market
  bar := hc.bar
  within := hc.within
  useCache := hc.useCache
  due k h hk := hc.due k h (.tail _ hk)
  made k h hk hes hh := by
    refine hc.made k h hk (fun hmem => ?_) hh
    rcases List.mem_cons.1 hmem with rfl | hmem
    · exact nomatch hcall.symm.trans hh
    · exact hes hmem
  ascending := hc.ascending
  handles := hc.handles
  hits := by
    have hits := hc.hits
    rwa [List.filterMap_cons_none hcall] at hits
  replays := hc.replays

theorem distinct (hp : p.WellFed) : (p.effects.filterMap Effect.handle?).Nodup := by
  rw [hp.handles]
  exact List.nodup_range

/-- What a call through the cache leaves of it. -/
theorem served (hp : p.WellFed) (hlengths : LiteralLengths p.effects)
    (hc : Along p m b t seen (.call k :: es) c) (hh : k.handle = some h) {nums : List α}
    (hsupplied : k.Supplied nums c) :
    0 < k.inputSize c ∧ ∃ (e : CacheEntry α) (l : Literal), k.HasLength l ∧
      e.Serves (k.study.kind (lengthOf (l.value : α))) k.study.family (k.inputSize c) ∧
      (c.absorb (k.perform nums c).2).cache = ⟨c.cache.entries.insert h e,
        c.cache.warmHits + (if t = 0 then 0 else 1), c.cache.coldRecomputes⟩ := by
  have hk : .call k ∈ p.effects := hc.mem (.head _)
  have hhandle : k.handle ≠ none := fun hnone => nomatch hnone.symm.trans hh
  obtain ⟨l, hl⟩ := hlengths k hk hhandle
  have hpos : 0 < k.inputSize c := StudyCallOf.inputSize_pos (hp.fits k hk) hc.bar_lt
    (fun a ha => hc.set a (hc.fed.1 a ha)) hsupplied
  obtain ⟨e, hserves, hcache⟩ := (hc.due k h (.head _) hh).perform (hp.cached k hk hhandle) hh
    hc.useCache hl hsupplied hpos
  exact ⟨hpos, e, l, hl, hserves, hcache⟩

/-- No call through the cache is made twice. -/
theorem not_later (hp : p.WellFed) (hc : Along p m b t seen (.call k :: es) c)
    (hh : k.handle = some h) : .call k ∉ es := by
  obtain ⟨before, hbefore⟩ := hc.pending
  have hdistinct := distinct hp
  rw [← hbefore] at hdistinct
  exact not_mem_of_handle hdistinct hh

/-- **A call through the cache** is made. -/
theorem called (hp : p.WellFed) (hlengths : LiteralLengths p.effects)
    (hc : Along p m b t seen (.call k :: es) c) (hh : k.handle = some h) {nums : List α}
    (hsupplied : k.Supplied nums c) :
    Along p m b t seen es (c.absorb (k.perform nums c).2) := by
  have hk : .call k ∈ p.effects := hc.mem (.head _)
  have hlater : .call k ∉ es := hc.not_later hp hh
  obtain ⟨hpos, e, l, hl, hserves, hcache⟩ := hc.served hp hlengths hh hsupplied
  -- the other calls have other handles, and as much input as before
  have hfind : ∀ k' h', .call k' ∈ p.effects → k'.handle = some h' → k' ≠ k →
      (c.absorb (k.perform nums c).2).cache.entries.find? h' = c.cache.entries.find? h' := by
    intro k' h' hk' hh' hne
    rw [hcache]
    refine Assoc.find?_insert_of_ne _ (fun heq => hne ?_) e
    subst heq
    exact eq_of_handle (distinct hp) hk hk' hh hh'
  exact {
    pending := (List.suffix_cons _ _).trans hc.pending
    fed := hc.fed.2.mono fun a ha => ha.resolve_left fun h => nomatch h.1
    set := hc.set
    market := hc.market
    bar := hc.bar
    within := hc.within
    useCache := hc.useCache
    due := fun k' h' hk' hh' => (hc.due k' h' (.tail _ hk') hh').congr
      (hfind k' h' (hc.mem (.tail _ hk')) hh' fun heq => hlater (heq ▸ hk')) fun _ => rfl
    made := fun k' h' hk' hes hh' => by
      by_cases heq : k' = k
      · subst heq
        obtain rfl : h' = h := Option.some.inj (hh'.symm.trans hh)
        exact ⟨hpos, e, l, by rw [hcache]; exact Assoc.find?_insert_self _ _ _, hl, hserves⟩
      · have hmem : .call k' ∉ .call k :: es := fun hmem => (List.mem_cons.1 hmem).elim
          (fun h => heq (Effect.call.inj h)) hes
        exact (hc.made k' h' hk' hmem hh').congr (hfind k' h' hk' hh' heq) fun _ => rfl
    ascending := by
      rw [hcache]
      exact hc.ascending.insert h e
    handles := fun h' hmem => by
      rw [hcache] at hmem
      rcases Assoc.mem_keys_insert.1 hmem with rfl | hmem
      · exact List.mem_filterMap.2 ⟨_, hk, hh⟩
      · exact hc.handles h' hmem
    hits := by
      have hits := hc.hits
      rw [List.filterMap_cons_some (show (Effect.call k).handle? = some h from hh),
        List.length_cons] at hits
      rw [hcache]
      dsimp only
      by_cases ht : t = 0
      · rw [if_pos ht] at hits ⊢
        rwa [if_pos ht, Nat.add_zero]
      · rw [if_neg ht] at hits ⊢
        rw [if_neg ht]
        omega
    replays := by
      rw [hcache]
      exact hc.replays }

/-- **An effect** of a course, or a drawing. -/
theorem course (hp : p.WellFed) (hlengths : LiteralLengths p.effects) (hcourse : Course es c c')
    (hc : Along p m b t seen es c) : ∃ seen', Along p m b t seen' [] c' := by
  induction hcourse generalizing seen with
  | done c => exact ⟨seen, hc⟩
  | skip hcall hslot _ ih =>
    exact ih (hc.skip hcall fun a ha hbank => (hslot a ha).resolve_left hbank)
  | @set bank id es c c' x _ ih =>
    have hframes : c.Frames { c with stores := c.stores.set bank id x } := by
      refine ⟨rfl, rfl, rfl, rfl, fun a ha => ?_⟩
      show ((c.stores.set bank id x).slot a).size = _
      rw [Stores.slot_set]
      split
      · rename_i heq
        subst heq
        exact Series.size_setCurrent ha x
      · rfl
    refine ih ((hc.frame hp hframes).skip rfl ?_)
    rintro _ ⟨⟩ -
    show 0 < ((c.stores.set bank id x).slot (bank, id)).size
    rw [Stores.slot_set, if_pos rfl, ← Series.length_toList, Series.toList_setCurrent,
      List.length_append]
    exact Nat.succ_pos _
  | @call k nums es c c' hsupplied _ ih =>
    cases hh : k.handle with
    | none =>
      have hframes : c.Frames (c.absorb (k.perform nums c).2) :=
        ⟨rfl, rfl, rfl, StudyCallOf.perform_uncached hh nums, fun _ _ => rfl⟩
      exact ih ((hc.frame hp hframes).skip hh nofun)
    | some h => exact ih (hc.called hp hlengths hh hsupplied)
  | draw o _ ih => exact ih (hc.frame hp ⟨rfl, rfl, rfl, rfl, fun _ _ => rfl⟩)

/-! ## From bar to bar -/

/-- At the next bar every call has one input more. -/
theorem inputSize_next (hc : Along p m b t seen es c) (hb : b + 1 < m.size) (hfits : k.Fits)
    (results : Results α) (hpos : 0 < k.inputSize c) :
    k.inputSize (Engine.enter (Engine.leave c results) (b + 1)) = k.inputSize c + 1 := by
  cases hfeed : k.feed? with
  | none =>
    have hbar : b + 1 < c.market.size := hc.market.symm ▸ hb
    rw [StudyCallOf.inputSize_of_market hfits hfeed hc.bar_lt, hc.bar]
    exact StudyCallOf.inputSize_of_market hfits hfeed hbar
  | some a =>
    rw [StudyCallOf.inputSize_of_feed hfeed] at hpos ⊢
    rw [StudyCallOf.inputSize_of_feed hfeed]
    show (c.stores.shiftAll.slot a).size = _
    rw [Stores.slot_shiftAll, Series.size_shift hpos]

/-- **The end of a bar** and the start of the next one. -/
theorem next (hp : p.WellFed) (hc : Along p m b t seen [] c) (hb : b + 1 < m.size)
    (results : Results α) : Along p m (b + 1) (t + 1) (fun _ => False) p.effects
      (Engine.enter (Engine.leave c results) (b + 1)) where
  pending := List.suffix_rfl
  fed := hp.fed
  set _ h := h.elim
  market := hc.market
  bar := rfl
  within := hb
  useCache := hc.useCache
  due k h hk hh := by
    obtain ⟨hpos, hentry⟩ := hc.made k h hk List.not_mem_nil hh
    exact ⟨_, hentry, hc.inputSize_next hb (hp.fits k hk) results hpos⟩
  made _ _ hk hes := absurd hk hes
  ascending := hc.ascending
  handles := hc.handles
  hits := by
    have hits : c.cache.warmHits + (if t = 0 then 0 else 0) = p.summary.cacheSites * t := hc.hits
    rw [ite_self, Nat.add_zero] at hits
    rw [if_neg (Nat.succ_ne_zero t), hp.handles, List.length_range, Nat.mul_succ, ← hits]
    rfl
  replays := hc.replays

theorem start (hp : p.WellFed) (precision : Precision) (hb : b < m.size) :
    Along p m b 0 (fun _ => False) p.effects
      (Engine.enter (Context.fresh m precision true) b) where
  pending := List.suffix_rfl
  fed := hp.fed
  set _ h := h.elim
  market := rfl
  bar := rfl
  within := hb
  useCache := rfl
  due _ _ _ _ := rfl
  made _ _ hk hes := absurd hk hes
  ascending := .nil
  handles _ h := nomatch h
  hits := rfl
  replays := rfl

/-- **One bar** of a run. -/
theorem bar_of_visits (hp : p.WellFed) (hsteady : p.Steady) (hlengths : LiteralLengths p.effects)
    {bars : List Nat} (hc : Along p m b t (fun _ => False) p.effects (Engine.enter c b))
    (hrun : Runner.visits p (b :: bars) c = (.ok (), c'))
    (hheeded : ∀ d ∈ Runner.entered p (b :: bars) c, Heeded (p.trace d)) :
    ∃ last results seen', Along p m b t seen' [] last ∧
      Runner.visits p bars (Engine.leave last results) = (.ok (), c') ∧
      ∀ d ∈ Runner.entered p bars (Engine.leave last results), Heeded (p.trace d) := by
  obtain ⟨out, last, results, hstep, -, hrest, hentered⟩ := Runner.visits_cons hrun
  rw [hentered] at hheeded
  obtain ⟨hfirst, hlater⟩ := List.forall_mem_cons.1 hheeded
  obtain ⟨seen', hlast⟩ := hc.course hp hlengths (p.course hsteady hp.filled hstep hfirst)
  exact ⟨last, results, seen', hlast, hrest, hlater⟩

/-- **The bars of a run** come to the end of the last one. -/
theorem visits (hp : p.WellFed) (hsteady : p.Steady) (hlengths : LiteralLengths p.effects) {n : Nat}
    (hb : b + n < m.size) (hc : Along p m b t (fun _ => False) p.effects (Engine.enter c b))
    (hrun : Runner.visits p (List.range' b (n + 1)) c = (.ok (), c'))
    (hheeded : ∀ d ∈ Runner.entered p (List.range' b (n + 1)) c, Heeded (p.trace d)) :
    ∃ last results seen', c' = Engine.leave last results ∧
      Along p m (b + n) (t + n) seen' [] last := by
  induction n generalizing b t c with
  | zero =>
    obtain ⟨last, results, seen', hlast, hrest, -⟩ :=
      hc.bar_of_visits hp hsteady hlengths hrun hheeded
    cases hrest
    exact ⟨last, results, seen', rfl, hlast⟩
  | succ n ih =>
    obtain ⟨last, results, seen', hlast, hrest, hlater⟩ :=
      hc.bar_of_visits hp hsteady hlengths hrun hheeded
    have hnext := ih (by omega) (hlast.next hp (by omega) results) hrest hlater
    rwa [Nat.add_right_comm, Nat.add_right_comm t] at hnext

/-- At the end of a bar every call has its entry. -/
theorem size_eq (hp : p.WellFed) (hc : Along p m b t seen [] c) :
    c.cache.size = p.summary.cacheSites := by
  have hdistinct : c.cache.entries.keys.Nodup := hc.ascending.imp Nat.ne_of_lt
  have hkeys : c.cache.entries.keys.Perm (List.range p.summary.cacheSites) := by
    refine (List.perm_ext_iff_of_nodup hdistinct List.nodup_range).2 fun h => ?_
    rw [← hp.handles]
    refine ⟨hc.handles h, fun hmem => ?_⟩
    obtain ⟨e, he, hh⟩ := List.mem_filterMap.1 hmem
    cases e with
    | set bank id => cases hh
    | call k =>
      obtain ⟨-, e, l, hfind, -⟩ := hc.made k h he List.not_mem_nil hh
      rw [Assoc.mem_keys_iff, hfind]
      rfl
  rw [Cache.size, ← Assoc.length_keys, hkeys.length_eq, List.length_range]

end Along

/-! ## A run of calls within calls -/

/-- Calls whose sources are a variable that has been reassigned, a state, and the values of other
calls; one of them stands in a history access, and two in the result. -/
def nestedSource : String :=
  "x = close\nx := x + open\nvar s = 0\ns := s + ta.ema(x, 2)\ny = ta.sma(ta.rma(s - x, 2) * 2, 3)[1]\nreturn y + ta.atr(2) + ta.rsi(s, 2)"

def nestedProgram : Program :=
  ⟨[.set .bindings 0 (.read (.price .close) none),
    .set .bindings 0
      (.binary .add (.read (.slot .bindings 0) none) (.read (.price .opening) none)),
    .init .states 0 (.number (.ofNat 0)),
    .set .states 0 (.binary .add (.read (.slot .states 0) none)
      (.study ⟨.ema, [.series (.slot .bindings 0), .number (.number (.ofNat 2))], some 0⟩)),
    .set .bindings 1 (.read (.computed 2 (.study ⟨.sma,
      [.series (.computed 1 (.binary .mul
        (.study ⟨.rma, [.series (.computed 0 (.binary .sub (.read (.slot .states 0) none)
          (.read (.slot .bindings 0) none))), .number (.number (.ofNat 2))], some 1⟩)
        (.number (.ofNat 2)))), .number (.number (.ofNat 3))], some 2⟩))
      (some (.number (.ofNat 1))))],
    some (.single (.binary .add (.binary .add (.read (.slot .bindings 1) none)
      (.study ⟨.atr, [.number (.number (.ofNat 2))], some 3⟩))
      (.study ⟨.rsi, [.series (.slot .states 0), .number (.number (.ofNat 2))], some 4⟩))),
    ⟨6, 3, 3, 5⟩⟩

set_option maxRecDepth 2000 in
theorem compile_nestedSource : compile nestedSource = .ok nestedProgram := by
  have hparse : parse nestedSource = .ok
      [.declare .binding "x" (.name "close" 4) 0,
        .reassign "x" (.binary .add (.name "x" 15) (.name "open" 19)) 10,
        .declare .persistent "s" (.number (.ofNat 0)) 24,
        .reassign "s" (.binary .add (.name "s" 39) (.call ⟨"ta.ema",
          [⟨none, .name "x" 50, 50⟩, ⟨none, .number (.ofNat 2), 53⟩], 43⟩)) 34,
        .declare .binding "y" (.history (.call ⟨"ta.sma",
          [⟨none, .binary .mul (.call ⟨"ta.rma",
            [⟨none, .binary .sub (.name "s" 74) (.name "x" 78), 74⟩,
              ⟨none, .number (.ofNat 2), 81⟩], 67⟩) (.number (.ofNat 2)), 67⟩,
            ⟨none, .number (.ofNat 3), 89⟩], 60⟩) (.number (.ofNat 1)) 91) 56,
        .result (.single (.binary .add (.binary .add (.name "y" 102)
          (.call ⟨"ta.atr", [⟨none, .number (.ofNat 2), 113⟩], 106⟩))
          (.call ⟨"ta.rsi", [⟨none, .name "s" 125, 125⟩, ⟨none, .number (.ofNat 2), 128⟩], 118⟩)))
          95] := by with_unfolding_all rfl
  rw [compile, hparse]
  with_unfolding_all rfl

theorem nestedProgram_literal : LiteralLengths nestedProgram.effects := by
  intro k hk _
  simp only [nestedProgram, Program.effects, Op.effects, Result.effects, Node.effects,
    Node.offsetEffects, Source.effects, Bound.allEffects, Bound.effects, List.flatMap_cons,
    List.flatMap_nil, Option.elim_some, List.nil_append, List.append_nil, List.cons_append,
    List.mem_cons, List.not_mem_nil, reduceCtorEq, Effect.call.injEq, false_or, or_false] at hk
  rcases hk with rfl | rfl | rfl | rfl | rfl <;> exact ⟨_, rfl⟩

theorem nestedProgram_steady : nestedProgram.Steady where
  ops := by
    simp [nestedProgram, Op.Steady, Node.Steady, Node.OffsetSteady, Source.Steady, Bound.AllSteady,
      Bound.Steady, Uncached, BinaryOp.lazy, Node.effects]
  result := by
    rintro _ ⟨⟩
    simp [Result.Steady, Node.Steady, Node.OffsetSteady, Source.Steady, Bound.AllSteady,
      Bound.Steady, BinaryOp.lazy]

/-- **The cache goes on** at every bar. A script whose calls of cached indicators have literal lengths
and stand in statements that are executed at every bar, in positions that are evaluated at every bar
(where no offset of a history access that leaves one out is unavailable): a run with the cache from
the start, over a window of one bar or more, leaves one entry for each call, has continued each of
them at every bar but the first one, and has replayed none. -/
theorem cache_continues {source : String} {p : Program} (bars : List (Bar α))
    (precision : Precision) (count : Option Nat) (hcompile : compile source = .ok p)
    (hlengths : LiteralLengths p.effects) (hsteady : p.Steady) :
    let r := Runner.configured bars true precision
    let run := r.runIn r.context (some source) count
    let window := Runner.window r.market count
    window ≠ [] → run.1 = .ok () →
      (∀ d ∈ Runner.entered p window r.context, Heeded (p.trace d)) →
      let cache := run.2.1.cache
      cache.size = p.summary.cacheSites ∧
        cache.warmHits = p.summary.cacheSites * (window.length - 1) ∧ cache.coldRecomputes = 0 := by
  intro r run window hwindow hok hheeded cache
  have hp : p.WellFed := compile_wellFed hcompile
  have hvisits : Runner.visits p window r.context = (run.1, run.2.1) :=
    Runner.visits_of_configured hcompile bars true precision count
  let first := (barRange r.market.size count).1
  have hrange : window = List.range' first (r.market.size - first) := rfl
  obtain ⟨n, hn⟩ : ∃ n, r.market.size - first = n + 1 :=
    Nat.exists_eq_succ_of_ne_zero fun hzero => hwindow (by rw [hrange, hzero]; rfl)
  rw [hn] at hrange
  rw [hrange, hok] at hvisits
  rw [hrange] at hheeded
  have hstart := Along.start hp precision (by omega : first < r.market.size)
  obtain ⟨last, results, seen', hlast, hend⟩ :=
    hstart.visits hp hsteady hlengths (by omega) hvisits hheeded
  have hcache : cache = last.cache := by
    show run.2.1.cache = _
    rw [hlast]
    rfl
  have hits := hend.hits
  simp only [List.filterMap_nil, List.length_nil, ite_self, Nat.add_zero, Nat.zero_add] at hits
  rw [hcache, hrange, List.length_range', Nat.add_sub_cancel]
  exact ⟨hend.size_eq hp, hits, hend.replays⟩

theorem cache_continues_nested :
    let bars : List (Bar Float) :=
      [⟨0, 1, 2, 3, 1, 2, 5⟩, ⟨1, 2, 2, 4, 2, 4, 5⟩, ⟨2, 3, 4, 4, 3, 3, 5⟩]
    let r := Runner.configured bars true .standard
    let run := r.runIn r.context (some nestedSource) none
    let window := Runner.window r.market none
    compile nestedSource = .ok nestedProgram ∧ LiteralLengths nestedProgram.effects ∧
      nestedProgram.Steady ∧ window ≠ [] ∧ run.1 = .ok () ∧
      (∀ d ∈ Runner.entered nestedProgram window r.context, Heeded (nestedProgram.trace d)) ∧
      run.2.1.cache.size = 5 ∧ run.2.1.cache.warmHits = 10 ∧
      run.2.1.cache.coldRecomputes = 0 := by
  intro bars r run window
  have hmarket : Market.ofBars bars = ⟨bars.toArray⟩ := Market.ofBars_ascending (by decide)
  have hwindow : window = [0, 1, 2] := by
    show Runner.window (Market.ofBars bars) none = _
    rw [hmarket]
    rfl
  have hrun : run = r.ran ⟨nestedSource, nestedProgram⟩ r.context none :=
    Runner.runIn_some compile_nestedSource (.inl rfl) r.context none
  have hok : run.1 = .ok () := by
    rw [hrun]
    show (Runner.runProgram nestedProgram (.fresh (Market.ofBars bars) .standard true) none).1 = _
    rw [hmarket]
    decide +kernel
  have hheeded : ∀ d ∈ Runner.entered nestedProgram window r.context,
      Heeded (nestedProgram.trace d) := by
    rw [hwindow]
    show ∀ d ∈ Runner.entered nestedProgram [0, 1, 2]
      (.fresh (Market.ofBars bars) .standard true), Heeded (nestedProgram.trace d)
    rw [hmarket]
    decide +kernel
  have hne : window ≠ [] := hwindow ▸ List.cons_ne_nil _ _
  have hcache := cache_continues bars .standard none compile_nestedSource nestedProgram_literal
    nestedProgram_steady hne hok hheeded
  rw [show Runner.window _ none = _ from hwindow] at hcache
  exact ⟨compile_nestedSource, nestedProgram_literal, nestedProgram_steady, hne, hok, hheeded, hcache⟩

end BarScript
