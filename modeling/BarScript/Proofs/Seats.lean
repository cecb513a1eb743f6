import Mathlib
import BarScript.Script.Arguments

/-!
# Arguments and parameters

Every argument of a call has a seat: its name gives it, or the number of positional arguments before
it (`CallOf.seats`). The arguments are matched if all seats are there and no two arguments have the
same one (`CallOf.bind_ok_iff`), and then they sit there (`CallOf.bind_holds`). The seats do not
depend on where the named arguments stand (`CallOf.seats_perm`), so neither does the outcome.
-/

namespace BarScript

variable {ε : Type}

/-- There is such a place. -/
def ArgPlace.Provided (params : List String) (allowExtra : Bool) : ArgPlace → Prop
  | .slot i => i < params.length
  | .extra _ => allowExtra = true

namespace CallOf

/-- The seat of an argument with `next` positional ones before it. -/
def seat (params : List String) (next : Nat) (a : Arg ε) : ArgPlace :=
  match a.name with
  | some n => (params.idxOf? n).elim (.extra n) .slot
  | none => .slot next

/-- The values of arguments with their seats, after `next` positional ones. -/
def seats (params : List String) : List (Arg ε) → Nat → List (ArgPlace × ε)
  | [], _ => []
  | a :: as, next =>
    (seat params next a, a.value) :: seats params as (if a.name.isNone then next + 1 else next)

/-- The arguments without a name. -/
def positional (c : CallOf ε) : List (Arg ε) := c.args.filter (·.name.isNone)

/-- The arguments that parameter number `i` is given, by position and by name. -/
def given (c : CallOf ε) (params : List String) (i : Nat) : List (Arg ε) :=
  c.positional[i]?.toList ++ c.args.filter fun a => a.name.isSome && a.name == params[i]?

/-- The arguments by a name that no parameter has. -/
def further (c : CallOf ε) (params : List String) : List (String × ε) :=
  c.args.filterMap fun a => a.name.bind fun n => if n ∈ params then none else some (n, a.value)

/-- The calls have the same arguments, and the positional ones in the same order. -/
structure Rearranged (c c' : CallOf ε) : Prop where
  args : (c'.args.map fun a => (a.name, a.value)).Perm (c.args.map fun a => (a.name, a.value))
  positional : c'.positional.map (·.value) = c.positional.map (·.value)

/-- What is asked of the arguments of a call. -/
structure Accepted (c : CallOf ε) (params : List String) (allowExtra : Bool) : Prop where
  room : c.positional.length ≤ params.length
  once : ∀ i, (c.given params i).length ≤ 1
  known : ∀ a ∈ c.args, ∀ n, a.name = some n → n ∈ params ∨ allowExtra = true
  distinct : ((c.further params).map Prod.fst).Nodup

/-- The arguments of a call are where they belong. -/
structure Seated (c : CallOf ε) (params : List String) (b : BoundArgs ε) : Prop where
  length : b.slots.length = params.length
  positional : ∀ (i : Nat) (a : Arg ε), c.positional[i]? = some a →
    b.slots[i]? = some (some a.value)
  named : ∀ a ∈ c.args, ∀ (i : Nat) n, a.name = some n → params[i]? = some n →
    b.slots[i]? = some (some a.value)
  further : b.extra = c.further params
  /-- No argument is left out, and none is in two places. -/
  once : (b.slots.reduceOption ++ b.extra.map Prod.snd).Perm (c.args.map (·.value))

end CallOf

/-- What goes to the further arguments. -/
def ArgPlace.further? : ArgPlace × ε → Option (String × ε)
  | (.extra n, v) => some (n, v)
  | (.slot _, _) => none

/-- The slots and the further arguments are those of the list `held`. -/
structure BoundArgs.Holds (size : Nat) (b : BoundArgs ε) (held : List (ArgPlace × ε)) : Prop where
  length : b.slots.length = size
  slot : ∀ i v, b.slots[i]? = some (some v) ↔ (.slot i, v) ∈ held
  extra : b.extra = held.filterMap ArgPlace.further?
  once : (b.slots.reduceOption ++ b.extra.map Prod.snd).Perm (held.map Prod.snd)

/-- A value that takes a free place is one more. -/
theorem reduceOption_set {xs : List (Option ε)} {i : Nat} (h : xs[i]? = some none) (v : ε) :
    (xs.set i (some v)).reduceOption.Perm (v :: xs.reduceOption) := by
  induction xs generalizing i with
  | nil => cases h
  | cons x xs ih =>
    cases i with
    | zero =>
      obtain rfl : x = none := by simpa using h
      exact .refl _
    | succ i =>
      replace ih := ih (i := i) (by simpa using h)
      cases x with
      | none => simpa using ih
      | some y => simpa using (ih.cons y).trans (.swap v y _)

namespace BoundArgs.Holds

variable {size : Nat} {b : BoundArgs ε} {held : List (ArgPlace × ε)}

/-- At first nothing is held. -/
theorem start (params : List String) :
    Holds (ε := ε) params.length ⟨params.map fun _ => none, []⟩ [] where
  length := List.length_map _
  slot i v := by simp [List.getElem?_replicate, List.map_const']
  extra := rfl
  once := by simp [List.map_const']

/-- A slot is free if nothing that is held is there. -/
theorem isSome_slot (h : b.Holds size held) (i : Nat) :
    (b.slot i).isSome ↔ .slot i ∈ held.map Prod.fst := by
  constructor
  · intro hsome
    obtain ⟨v, hv⟩ := Option.isSome_iff_exists.1 hsome
    exact List.mem_map.2 ⟨_, (h.slot i v).1 (Option.join_eq_some_iff.1 hv), rfl⟩
  · intro hmem
    obtain ⟨⟨p, v⟩, hv, rfl⟩ := List.mem_map.1 hmem
    rw [BoundArgs.slot, (h.slot i v).2 hv]
    rfl

theorem any_extra (h : b.Holds size held) (n : String) :
    b.extra.any (·.1 == n) ↔ .extra n ∈ held.map Prod.fst := by
  rw [h.extra, List.any_eq_true, List.mem_map]
  constructor
  · rintro ⟨⟨m, v⟩, hmem, hm⟩
    obtain ⟨⟨p, w⟩, hp, hpw⟩ := List.mem_filterMap.1 hmem
    cases p with
    | slot i => cases hpw
    | extra m' =>
      cases hpw
      obtain rfl := beq_iff_eq.1 hm
      exact ⟨_, hp, rfl⟩
  · rintro ⟨⟨p, v⟩, hp, rfl⟩
    exact ⟨(n, v), List.mem_filterMap.2 ⟨_, hp, rfl⟩, beq_self_eq_true n⟩

/-- A value is put into a free slot. -/
theorem set (h : b.Holds size held) {i : Nat} (hi : i < size) (hfree : ¬ (b.slot i).isSome)
    (v : ε) : Holds size { b with slots := b.slots.set i (some v) } (held ++ [(.slot i, v)]) := by
  have hnone : b.slots[i]? = some none := by
    rw [List.getElem?_eq_getElem (h.length ▸ hi)]
    rw [BoundArgs.slot, List.getElem?_eq_getElem (h.length ▸ hi)] at hfree
    exact congrArg some (Option.not_isSome_iff_eq_none.1 hfree)
  refine ⟨by simp [h.length], fun j w => ?_, ?_, ?_⟩
  · rw [List.mem_append, List.mem_singleton, ← h.slot]
    by_cases hj : j = i
    · subst hj
      rw [List.getElem?_set_self (h.length ▸ hi), hnone]
      simp [eq_comm]
    · simp [List.getElem?_set_ne (Ne.symm hj), hj]
  · rw [List.filterMap_append, ← h.extra]
    exact (List.append_nil _).symm
  · rw [List.map_append]
    refine ((reduceOption_set hnone v).append_right _).trans ?_
    exact (h.once.cons v).trans (List.perm_append_singleton v _).symm

/-- A value is put behind the further arguments. -/
theorem concat (h : b.Holds size held) (n : String) (v : ε) :
    Holds size { b with extra := b.extra ++ [(n, v)] } (held ++ [(.extra n, v)]) := by
  refine ⟨h.length, fun i w => ?_, ?_, ?_⟩
  · rw [List.mem_append, List.mem_singleton, ← h.slot]
    simp
  · rw [List.filterMap_append, ← h.extra]
    rfl
  · rw [List.map_append, List.map_append, ← List.append_assoc]
    exact h.once.append_right _

/-- Where the same is held, the slots are the same, and the further arguments too but for their
order. -/
theorem perm {b' : BoundArgs ε} {held' : List (ArgPlace × ε)} (h : b.Holds size held)
    (h' : b'.Holds size held') (hperm : held'.Perm held) :
    b'.slots = b.slots ∧ b'.extra.Perm b.extra := by
  constructor
  · refine List.ext_getElem (h'.length.trans h.length.symm) fun i hi' hi => ?_
    refine Option.ext fun v => ?_
    have hiff : b'.slots[i]? = some (some v) ↔ b.slots[i]? = some (some v) := by
      rw [h'.slot, h.slot, hperm.mem_iff]
    rwa [List.getElem?_eq_getElem hi', List.getElem?_eq_getElem hi, Option.some_inj,
      Option.some_inj] at hiff
  · rw [h'.extra, h.extra]
    exact hperm.filterMap _

end BoundArgs.Holds

namespace CallOf

variable {c : CallOf ε} {params : List String} {allowExtra : Bool}

/-! ## One argument after the other -/

theorem seat_provided {next : Nat} {a : Arg ε} :
    (seat params next a).Provided params allowExtra ↔
      (a.name = none → next < params.length) ∧
        ∀ n, a.name = some n → n ∈ params ∨ allowExtra = true := by
  unfold seat
  cases a.name with
  | none => simp [ArgPlace.Provided]
  | some n =>
    cases hidx : params.idxOf? n with
    | none =>
      have hn := List.idxOf?_eq_none_iff.1 hidx
      simp [hidx, ArgPlace.Provided, hn]
    | some i =>
      obtain ⟨hi, hget, -⟩ := List.idxOf?_eq_some_iff.1 hidx
      have hn : n ∈ params := hget ▸ List.getElem_mem hi
      simp [hidx, ArgPlace.Provided, hn, hi]

/-- An argument goes to its seat if it is there. -/
theorem place_ok_iff {next : Nat} {a : Arg ε} {p : ArgPlace} :
    c.place params allowExtra next a = .ok p ↔
      p = seat params next a ∧ p.Provided params allowExtra := by
  unfold place seat
  cases a.name with
  | none =>
    dsimp only
    split
    · rename_i hnext
      simp only [Except.ok.injEq, eq_comm (a := p)]
      exact ⟨fun h => ⟨h, h ▸ hnext⟩, And.left⟩
    · rename_i hnext
      refine ⟨nofun, ?_⟩
      rintro ⟨rfl, h⟩
      exact absurd h hnext
  | some n =>
    dsimp only
    cases hidx : params.idxOf? n with
    | some i =>
      obtain ⟨hi, -⟩ := List.idxOf?_eq_some_iff.1 hidx
      simp only [Except.ok.injEq, eq_comm (a := p)]
      exact ⟨fun h => ⟨h, h ▸ hi⟩, And.left⟩
    | none =>
      dsimp only
      split
      · rename_i hallow
        simp only [Except.ok.injEq, eq_comm (a := p)]
        exact ⟨fun h => ⟨h, h ▸ hallow⟩, And.left⟩
      · rename_i hallow
        refine ⟨nofun, ?_⟩
        rintro ⟨rfl, h⟩
        exact absurd h hallow

/-- An argument is put where nothing is held, and nowhere else. -/
theorem put_spec {b : BoundArgs ε} {held : List (ArgPlace × ε)} (h : b.Holds params.length held)
    (a : Arg ε) {p : ArgPlace} (hp : p.Provided params allowExtra) :
    if p ∈ held.map Prod.fst then ∃ e, put params a b p = .error e
    else ∃ b', put params a b p = .ok b' ∧ b'.Holds params.length (held ++ [(p, a.value)]) := by
  cases p with
  | slot i =>
    have htaken := h.isSome_slot i
    split
    · exact ⟨_, if_pos (htaken.2 ‹_›)⟩
    · have hfree := mt htaken.1 ‹_›
      exact ⟨_, if_neg hfree, h.set hp hfree a.value⟩
  | extra n =>
    have htaken := h.any_extra n
    split
    · exact ⟨_, if_pos (htaken.2 ‹_›)⟩
    · exact ⟨_, if_neg (mt htaken.1 ‹_›), h.concat n a.value⟩

/-- **Arguments are matched one after the other** exactly if their seats are there and free. -/
theorem bindFrom_ok_iff {as : List (Arg ε)} {next : Nat} {b : BoundArgs ε}
    {held : List (ArgPlace × ε)} (h : b.Holds params.length held)
    (hnodup : (held.map Prod.fst).Nodup) :
    ((∃ b', c.bindFrom params allowExtra as next b = .ok b') ↔
      (∀ x ∈ seats params as next, x.1.Provided params allowExtra) ∧
        ((held ++ seats params as next).map Prod.fst).Nodup) ∧
    ∀ b', c.bindFrom params allowExtra as next b = .ok b' →
      b'.Holds params.length (held ++ seats params as next) := by
  induction as generalizing next b held with
  | nil =>
    rw [bindFrom, seats, List.append_nil]
    refine ⟨⟨fun _ => ⟨List.forall_mem_nil _, hnodup⟩, fun _ => ⟨b, rfl⟩⟩, ?_⟩
    rintro _ ⟨⟩
    exact h
  | cons a as ih =>
    rw [bindFrom, seats, List.forall_mem_cons, List.append_cons]
    cases hplace : c.place params allowExtra next a with
    | error e =>
      refine ⟨⟨nofun, fun hok => ?_⟩, nofun⟩
      cases hplace.symm.trans (place_ok_iff.2 ⟨rfl, hok.1.1⟩)
    | ok p =>
      obtain ⟨rfl, hp⟩ := place_ok_iff.1 hplace
      have hput := put_spec h a hp
      dsimp only [Bind.bind, Except.bind]
      split at hput
      · rename_i htaken
        obtain ⟨e, he⟩ := hput
        rw [he]
        refine ⟨⟨nofun, fun hok => ?_⟩, nofun⟩
        rw [List.map_append, List.map_append] at hok
        have hdisjoint := (List.nodup_append.1 (List.nodup_append.1 hok.2).1).2.2
        exact absurd rfl (hdisjoint _ htaken _ (.head _))
      · rename_i hfree
        obtain ⟨b', hb', h'⟩ := hput
        have hnodup' : ((held ++ [(seat params next a, a.value)]).map Prod.fst).Nodup := by
          rw [List.map_append]
          refine List.nodup_append.2 ⟨hnodup, List.nodup_singleton _, fun x hx y hy hxy => ?_⟩
          obtain rfl := List.mem_singleton.1 hy
          subst hxy
          exact hfree hx
        rw [hb']
        simpa [hp] using ih h' hnodup'

/-- The seats of all arguments of a call. -/
theorem bind_ok_iff : (∃ b, c.bind params allowExtra = .ok b) ↔
    (∀ x ∈ seats params c.args 0, x.1.Provided params allowExtra) ∧
      ((seats params c.args 0).map Prod.fst).Nodup :=
  (bindFrom_ok_iff (.start params) .nil).1

theorem bind_holds {b : BoundArgs ε} (h : c.bind params allowExtra = .ok b) :
    b.Holds params.length (seats params c.args 0) :=
  (bindFrom_ok_iff (.start params) .nil).2 b h

/-! ## The seats of a call -/

/-- The seats of positional arguments are numbered, and the other ones do not depend on where an
argument stands. -/
theorem seats_perm (as : List (Arg ε)) (next : Nat) :
    (seats params as next).Perm
      ((as.filter (·.name.isNone)).mapIdx (fun i a => (.slot (next + i), a.value)) ++
        (as.filter (·.name.isSome)).map fun a => (seat params 0 a, a.value)) := by
  induction as generalizing next with
  | nil => exact .refl _
  | cons a as ih =>
    obtain ⟨name, value, position⟩ := a
    cases name with
    | none =>
      simpa [seats, seat, Nat.add_comm, Nat.add_left_comm] using
        (ih (next + 1)).cons (.slot next, value)
    | some n =>
      simpa [seats, seat] using ((ih next).cons _).trans List.perm_middle.symm

/-- Rearranged arguments have the same seats. -/
theorem Rearranged.seats {c' : CallOf ε} (h : c.Rearranged c') :
    (seats params c'.args 0).Perm (seats params c.args 0) := by
  have hcanonical (d : CallOf ε) : (CallOf.seats params d.args 0).Perm
      ((d.positional.map (·.value)).mapIdx (fun i v => (.slot i, v)) ++
        ((d.args.map fun a => (a.name, a.value)).filter (·.1.isSome)).map
          fun x => (seat params 0 ⟨x.1, x.2, 0⟩, x.2)) := by
    refine (seats_perm d.args 0).trans (.of_eq ?_)
    rw [show (d.positional.map (·.value)).mapIdx (fun i v => (ArgPlace.slot i, v)) =
      d.positional.mapIdx fun i a => (.slot i, a.value) from List.ext_getElem (by simp) (by simp)]
    simp [CallOf.positional, List.filter_map, Function.comp_def, seat]
  refine (hcanonical c').trans (.trans ?_ (hcanonical c).symm)
  rw [h.positional]
  exact ((h.args.filter _).map _).append_left _

theorem places_perm : ((seats params c.args 0).map Prod.fst).Perm
    ((List.range c.positional.length).map .slot ++
      (c.args.filter (·.name.isSome)).map (seat params 0)) := by
  refine ((seats_perm c.args 0).map Prod.fst).trans (.of_eq ?_)
  rw [List.map_append, List.map_map]
  congr 1
  exact List.ext_getElem (by simp [positional]) fun i _ _ => by simp

theorem seats_values (as : List (Arg ε)) (next : Nat) :
    (seats params as next).map Prod.snd = as.map (·.value) := by
  induction as generalizing next with
  | nil => rfl
  | cons a as ih => rw [seats, List.map_cons, List.map_cons, ih]

theorem seats_further (as : List (Arg ε)) (next : Nat) :
    (seats params as next).filterMap ArgPlace.further? =
      as.filterMap fun a => a.name.bind fun n =>
        if n ∈ params then none else some (n, a.value) := by
  induction as generalizing next with
  | nil => rfl
  | cons a as ih =>
    obtain ⟨name, value, position⟩ := a
    rw [seats, List.filterMap_cons, List.filterMap_cons, ih]
    cases name with
    | none => rfl
    | some n =>
      by_cases hn : n ∈ params
      · obtain ⟨i, hi⟩ := Option.isSome_iff_exists.1 (List.isSome_idxOf?.2 hn)
        simp [seat, hi, hn, ArgPlace.further?]
      · simp [seat, List.idxOf?_eq_none_iff.2 hn, hn, ArgPlace.further?]

/-- The seat of a named argument is the one that has its name. -/
theorem seat_eq_slot_iff (hparams : params.Nodup) {a : Arg ε} (ha : a.name.isSome) {next i : Nat} :
    seat params next a = .slot i ↔ a.name = params[i]? := by
  obtain ⟨n, hn⟩ := Option.isSome_iff_exists.1 ha
  unfold seat
  rw [hn, eq_comm (a := some n), List.getElem?_eq_some_iff]
  dsimp only
  cases hidx : params.idxOf? n with
  | none =>
    have hnone := List.idxOf?_eq_none_iff.1 hidx
    refine ⟨nofun, ?_⟩
    rintro ⟨hi, rfl⟩
    exact absurd (List.getElem_mem hi) hnone
  | some j =>
    obtain ⟨hj, hget, -⟩ := List.idxOf?_eq_some_iff.1 hidx
    constructor
    · rintro ⟨⟩
      exact ⟨hj, hget⟩
    · rintro ⟨hi, hget'⟩
      exact congrArg ArgPlace.slot (hparams.getElem_inj_iff.1 (hget.trans hget'.symm))

theorem count_slot (hparams : params.Nodup) (i : Nat) :
    ((seats params c.args 0).map Prod.fst).count (.slot i) = (c.given params i).length := by
  rw [places_perm.count_eq, List.count_append, given, List.length_append]
  congr 1
  · rw [List.count_map_of_injective _ _ fun _ _ => ArgPlace.slot.inj]
    by_cases hi : i < c.positional.length
    · rw [List.getElem?_eq_getElem hi, List.nodup_range.count, if_pos (List.mem_range.2 hi)]
      rfl
    · rw [List.getElem?_eq_none (by omega), List.nodup_range.count,
        if_neg (mt List.mem_range.1 hi)]
      rfl
  · rw [List.count, List.countP_map, List.countP_filter, ← List.countP_eq_length_filter]
    refine List.countP_congr fun a _ => ?_
    by_cases ha : a.name.isSome
    · simp [ha, seat_eq_slot_iff hparams ha]
    · simp [ha]

theorem count_extra (xs : List (ArgPlace × ε)) (n : String) :
    (xs.map Prod.fst).count (.extra n) =
      ((xs.filterMap ArgPlace.further?).map Prod.fst).count n := by
  induction xs with
  | nil => rfl
  | cons x xs ih =>
    obtain ⟨p, v⟩ := x
    cases p with
    | slot i =>
      rw [List.map_cons, List.count_cons_of_ne (by simp), ih, List.filterMap_cons_none rfl]
    | extra m =>
      have hfurther : ((ArgPlace.extra m, v) :: xs).filterMap ArgPlace.further? =
          (m, v) :: xs.filterMap ArgPlace.further? := List.filterMap_cons_some rfl
      rw [hfurther, List.map_cons, List.map_cons, List.count_cons, List.count_cons, ih]
      simp

/-! ## Calls -/

/-- The seats are there if there is room for the positional arguments and the names are known. -/
theorem seats_provided_iff : (∀ x ∈ seats params c.args 0, x.1.Provided params allowExtra) ↔
    c.positional.length ≤ params.length ∧
      ∀ a ∈ c.args, ∀ n, a.name = some n → n ∈ params ∨ allowExtra = true := by
  rw [show (∀ x ∈ seats params c.args 0, x.1.Provided params allowExtra) ↔
    ∀ p ∈ (seats params c.args 0).map Prod.fst, p.Provided params allowExtra from
      List.forall_mem_map.symm]
  constructor
  · intro h
    refine ⟨Nat.le_of_not_lt fun hlt => ?_, fun a ha n hn => ?_⟩
    · have hmem : ArgPlace.slot params.length ∈ (List.range c.positional.length).map .slot :=
        List.mem_map_of_mem (List.mem_range.2 hlt)
      exact Nat.lt_irrefl _ (h _ (places_perm.mem_iff.2 (List.mem_append_left _ hmem)))
    · have hmem : seat params 0 a ∈ (c.args.filter (·.name.isSome)).map (seat params 0) :=
        List.mem_map_of_mem (List.mem_filter.2 ⟨ha, hn ▸ rfl⟩)
      exact (seat_provided.1 (h _ (places_perm.mem_iff.2 (List.mem_append_right _ hmem)))).2 n hn
  · rintro ⟨hroom, hknown⟩ p hp
    rcases List.mem_append.1 (places_perm.mem_iff.1 hp) with hp | hp
    · obtain ⟨i, hi, rfl⟩ := List.mem_map.1 hp
      exact Nat.lt_of_lt_of_le (List.mem_range.1 hi) hroom
    · obtain ⟨a, ha, rfl⟩ := List.mem_map.1 hp
      obtain ⟨ha, hname⟩ := List.mem_filter.1 ha
      exact seat_provided.2 ⟨fun hnone => by simp [hnone] at hname, hknown a ha⟩

/-- The seats are different if no parameter is given twice and no further name occurs twice. -/
theorem seats_nodup_iff (hparams : params.Nodup) : ((seats params c.args 0).map Prod.fst).Nodup ↔
    (∀ i, (c.given params i).length ≤ 1) ∧ ((c.further params).map Prod.fst).Nodup := by
  have hcount (n : String) : ((seats params c.args 0).map Prod.fst).count (.extra n) =
      ((c.further params).map Prod.fst).count n := by
    rw [count_extra, seats_further, further]
  rw [List.nodup_iff_count_le_one, List.nodup_iff_count_le_one]
  constructor
  · intro h
    exact ⟨fun i => count_slot hparams i ▸ h (.slot i), fun n => hcount n ▸ h (.extra n)⟩
  · rintro ⟨hslots, hextra⟩ (i | n)
    · exact count_slot hparams i ▸ hslots i
    · exact hcount n ▸ hextra n

/-- What is asked of the arguments is that their seats are there and that no two are the same. -/
theorem accepted_iff (hparams : params.Nodup) : c.Accepted params allowExtra ↔
    (∀ x ∈ seats params c.args 0, x.1.Provided params allowExtra) ∧
      ((seats params c.args 0).map Prod.fst).Nodup := by
  rw [seats_provided_iff, seats_nodup_iff hparams]
  exact ⟨fun h => ⟨⟨h.room, h.known⟩, h.once, h.distinct⟩, fun h => ⟨h.1.1, h.2.1, h.1.2, h.2.2⟩⟩

/-- Arguments that are matched with parameters are where they belong. -/
theorem bind_seated (hparams : params.Nodup) {b : BoundArgs ε}
    (h : c.bind params allowExtra = .ok b) : c.Seated params b where
  length := (bind_holds h).length
  positional i a ha := by
    rw [(bind_holds h).slot, (seats_perm c.args 0).mem_iff]
    refine List.mem_append_left _ (List.mem_of_getElem? (i := i) ?_)
    rw [List.getElem?_mapIdx, show (c.args.filter (·.name.isNone))[i]? = some a from ha,
      Option.map_some, Nat.zero_add]
  named a ha i n hn hi := by
    rw [(bind_holds h).slot, (seats_perm c.args 0).mem_iff]
    have hname : a.name.isSome := hn ▸ rfl
    refine List.mem_append_right _ (List.mem_map.2 ⟨a, List.mem_filter.2 ⟨ha, hname⟩, ?_⟩)
    rw [(seat_eq_slot_iff hparams hname).2 (hn.trans hi.symm)]
  further := by rw [(bind_holds h).extra, seats_further, further]
  once := seats_values c.args 0 ▸ (bind_holds h).once

/-- **Arguments are matched with parameters**, and where the named ones stand does not matter. -/
theorem bind_arguments (hparams : params.Nodup) (c : CallOf ε) (allowExtra : Bool) :
    ((∃ b, c.bind params allowExtra = .ok b) ↔ c.Accepted params allowExtra) ∧
      (∀ b, c.bind params allowExtra = .ok b → c.Seated params b) ∧
      ∀ c' : CallOf ε, c.Rearranged c' →
        ((∃ b', c'.bind params allowExtra = .ok b') ↔ ∃ b, c.bind params allowExtra = .ok b) ∧
          ∀ b b', c.bind params allowExtra = .ok b → c'.bind params allowExtra = .ok b' →
            b'.slots = b.slots ∧ b'.extra.Perm b.extra := by
  refine ⟨bind_ok_iff.trans (accepted_iff hparams).symm, fun b hb => bind_seated hparams hb, ?_⟩
  intro c' h
  have hperm : (seats params c'.args 0).Perm (seats params c.args 0) := h.seats
  refine ⟨?_, fun b b' hb hb' => (bind_holds hb).perm (bind_holds hb') hperm⟩
  rw [bind_ok_iff, bind_ok_iff, (hperm.map Prod.fst).nodup_iff]
  simp only [hperm.mem_iff]

/-- `f(b = 2, 1, color = 9)` -/
def colored : CallOf Nat := ⟨"f", [⟨some "b", 2, 2⟩, ⟨none, 1, 9⟩, ⟨some "color", 9, 12⟩], 0⟩

/-- `f(color = 9, 1, b = 2)` -/
def recolored : CallOf Nat := ⟨"f", [⟨some "color", 9, 2⟩, ⟨none, 1, 13⟩, ⟨some "b", 2, 16⟩], 0⟩

/-- A name in front of the positional argument is moved behind it. -/
theorem bind_arguments_recolored : ["a", "b", "c"].Nodup ∧
    colored.bind ["a", "b", "c"] true = .ok ⟨[some 1, some 2, none], [("color", 9)]⟩ ∧
    recolored.bind ["a", "b", "c"] true = .ok ⟨[some 1, some 2, none], [("color", 9)]⟩ := by
  have hparams : ["a", "b", "c"].Nodup := by decide
  have h : colored.bind ["a", "b", "c"] true = .ok ⟨[some 1, some 2, none], [("color", 9)]⟩ := rfl
  obtain ⟨-, -, hrearranged⟩ := bind_arguments hparams colored true
  obtain ⟨hok, hsame⟩ := hrearranged recolored ⟨by decide, rfl⟩
  obtain ⟨⟨slots, extra⟩, h'⟩ := hok.2 ⟨_, h⟩
  obtain ⟨hslots, hextra⟩ := hsame _ _ h h'
  dsimp only at hslots hextra
  rw [List.perm_singleton.1 hextra, hslots] at h'
  exact ⟨hparams, h, h'⟩

end CallOf

end BarScript
