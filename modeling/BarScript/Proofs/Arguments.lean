import BarScript.Proofs.Renaming
import BarScript.Script.Arguments

/-!
# Matching arguments of similar calls

Where the arguments of a call go depends on their names and their order only. So calls whose
arguments are related one by one are bound to related arguments (`CallOf.bind_rel`), and if one pair
of arguments is related in another way, it is found at the place of its parameter, or among the
further arguments (`CallOf.bind_holed`).
-/

namespace BarScript

section

variable {β γ : Type} {R : β → γ → Prop}

/-- Lists that are related one by one around two elements with `i` elements before them. -/
def Around (R : β → γ → Prop) (i : Nat) (x : β) (y : γ) (xs : List β) (ys : List γ) : Prop :=
  ∃ pre post pre' post', xs = pre ++ x :: post ∧ ys = pre' ++ y :: post' ∧ pre.length = i ∧
    List.Forall₂ R pre pre' ∧ List.Forall₂ R post post'

theorem forall₂_set {xs : List β} {ys : List γ} (h : List.Forall₂ R xs ys) {x : β} {y : γ}
    (hxy : R x y) (i : Nat) : List.Forall₂ R (xs.set i x) (ys.set i y) := by
  induction h generalizing i with
  | nil => exact .nil
  | cons hx hxs ih =>
    cases i with
    | zero => exact .cons hxy hxs
    | succ i => exact .cons hx (ih i)

theorem around_set {xs : List β} {ys : List γ} (h : List.Forall₂ R xs ys) {i : Nat}
    (hi : i < xs.length) (x : β) (y : γ) : Around R i x y (xs.set i x) (ys.set i y) := by
  refine ⟨xs.take i, xs.drop (i + 1), ys.take i, ys.drop (i + 1), ?_, ?_, ?_, ?_, ?_⟩
  · exact List.set_eq_take_append_cons_drop.trans (if_pos hi)
  · exact List.set_eq_take_append_cons_drop.trans (if_pos (h.length_eq ▸ hi))
  · simp; omega
  · exact List.forall₂_take i h
  · exact List.forall₂_drop (i + 1) h

theorem Around.set {i j : Nat} {x x' : β} {y y' : γ} {xs : List β} {ys : List γ}
    (h : Around R i x y xs ys) (hj : j ≠ i) (hxy : R x' y') :
    Around R i x y (xs.set j x') (ys.set j y') := by
  obtain ⟨pre, post, pre', post', rfl, rfl, rfl, hpre, hpost⟩ := h
  have hlen := hpre.length_eq
  rcases Nat.lt_or_gt_of_ne hj with hlt | hgt
  · rw [List.set_append_left _ _ hlt, List.set_append_left _ _ (by omega)]
    exact ⟨_, _, _, _, rfl, rfl, by simp, forall₂_set hpre hxy j, hpost⟩
  · obtain ⟨k, rfl⟩ := Nat.exists_eq_add_of_lt hgt
    rw [List.set_append_right _ _ (by omega), List.set_append_right _ _ (by omega),
      show pre.length + k + 1 - pre.length = k + 1 by omega,
      show pre.length + k + 1 - pre'.length = k + 1 by omega]
    exact ⟨_, _, _, _, rfl, rfl, rfl, hpre, forall₂_set hpost hxy k⟩

theorem Around.concat {i : Nat} {x x' : β} {y y' : γ} {xs : List β} {ys : List γ}
    (h : Around R i x y xs ys) (hxy : R x' y') : Around R i x y (xs ++ [x']) (ys ++ [y']) := by
  obtain ⟨pre, post, pre', post', rfl, rfl, hi, hpre, hpost⟩ := h
  refine ⟨pre, post ++ [x'], pre', post' ++ [y'], by simp, by simp, hi, hpre, ?_⟩
  exact List.rel_append hpost (.cons hxy .nil)

theorem Around.getElem? {i : Nat} {x : β} {y : γ} {xs : List β} {ys : List γ}
    (h : Around R i x y xs ys) : xs[i]? = some x ∧ ys[i]? = some y := by
  obtain ⟨pre, post, pre', post', rfl, rfl, rfl, hpre, -⟩ := h
  exact ⟨by simp, by simp [hpre.length_eq]⟩

theorem Around.rel_getElem? {i j : Nat} {x : β} {y : γ} {xs : List β} {ys : List γ}
    (h : Around R i x y xs ys) (hj : j ≠ i) : Option.Rel R xs[j]? ys[j]? := by
  obtain ⟨pre, post, pre', post', rfl, rfl, rfl, hpre, hpost⟩ := h
  have hlen := hpre.length_eq
  rcases Nat.lt_or_gt_of_ne hj with hlt | hgt
  · rw [List.getElem?_append_left hlt, List.getElem?_append_left (by omega)]
    exact BarScript.rel_getElem? hpre j
  · obtain ⟨k, rfl⟩ := Nat.exists_eq_add_of_lt hgt
    rw [List.getElem?_append_right (by omega), List.getElem?_append_right (by omega),
      show pre.length + k + 1 - pre.length = k + 1 by omega,
      show pre.length + k + 1 - pre'.length = k + 1 by omega]
    exact BarScript.rel_getElem? hpost k

end

variable {ε ε' : Type}

/-- Arguments of one name, with values in `R`. -/
def Arg.Rel (R : ε → ε' → Prop) (a : Arg ε) (a' : Arg ε') : Prop :=
  a'.name = a.name ∧ R a.value a'.value

namespace BoundArgs

/-- The same parameters are taken, by arguments in `R`. -/
structure Rel (R : ε → ε' → Prop) (b : BoundArgs ε) (b' : BoundArgs ε') : Prop where
  slots : List.Forall₂ (Option.Rel R) b.slots b'.slots
  extra : Keyed R b.extra b'.extra

/-- The same parameters are taken, by `x` and `y` at a place and by arguments in `R` elsewhere. -/
inductive Holed (R : ε → ε' → Prop) (x : ε) (y : ε') :
    ArgPlace → BoundArgs ε → BoundArgs ε' → Prop
  | slot {b : BoundArgs ε} {b' : BoundArgs ε'} (i : Nat)
      (hslots : Around (Option.Rel R) i (some x) (some y) b.slots b'.slots)
      (hextra : Keyed R b.extra b'.extra) : Holed R x y (.slot i) b b'
  | extra {b : BoundArgs ε} {b' : BoundArgs ε'} (name : String) (k : Nat)
      (hslots : List.Forall₂ (Option.Rel R) b.slots b'.slots)
      (hextra : Around (fun a a' => a'.1 = a.1 ∧ R a.2 a'.2) k (name, x) (name, y) b.extra b'.extra) :
      Holed R x y (.extra name) b b'

end BoundArgs

/-- A relation of bound arguments that is kept when arguments in `R` are put where they go. -/
structure Binds (R : ε → ε' → Prop) (Q : BoundArgs ε → BoundArgs ε' → Prop) : Prop where
  taken : ∀ {b b'}, Q b b' → ∀ i, (b'.slot i).isSome = (b.slot i).isSome
  named : ∀ {b b'}, Q b b' → ∀ n, b'.extra.any (·.1 == n) = b.extra.any (·.1 == n)
  slot : ∀ {b b'}, Q b b' → ∀ {x y}, R x y → ∀ {i}, (b.slot i).isSome = false →
    Q { b with slots := b.slots.set i (some x) } { b' with slots := b'.slots.set i (some y) }
  extra : ∀ {b b'}, Q b b' → ∀ {x y}, R x y → ∀ n,
    Q { b with extra := b.extra ++ [(n, x)] } { b' with extra := b'.extra ++ [(n, y)] }

theorem isSome_join {R : ε → ε' → Prop} {o : Option (Option ε)} {o' : Option (Option ε')}
    (h : Option.Rel (Option.Rel R) o o') : o'.join.isSome = o.join.isSome := by
  cases h with
  | none => rfl
  | some h => cases h <;> rfl

theorem any_keyed {R : ε → ε' → Prop} {xs : List (String × ε)} {ys : List (String × ε')}
    (h : Keyed R xs ys) (n : String) : ys.any (·.1 == n) = xs.any (·.1 == n) := by
  induction h with
  | nil => rfl
  | cons hx _ ih => rw [List.any_cons, List.any_cons, ih, hx.1]

variable {R : ε → ε' → Prop}

theorem binds_rel : Binds R (BoundArgs.Rel R) where
  taken h i := isSome_join (rel_getElem? h.slots i)
  named h n := any_keyed h.extra n
  slot h _ _ hxy i _ := ⟨forall₂_set h.slots (.some hxy) i, h.extra⟩
  extra h _ _ hxy _ := ⟨h.slots, List.rel_append h.extra (.cons ⟨rfl, hxy⟩ .nil)⟩

theorem binds_holed (x : ε) (y : ε') (place : ArgPlace) :
    Binds R (BoundArgs.Holed R x y place) where
  taken {b b'} h i := by
    cases h with
    | slot j hslots _ =>
      by_cases hij : i = j
      · subst hij
        simp [BoundArgs.slot, hslots.getElem?.1, hslots.getElem?.2]
      · exact isSome_join (hslots.rel_getElem? hij)
    | extra _ _ hslots _ => exact isSome_join (rel_getElem? hslots i)
  named {b b'} h n := by
    cases h with
    | slot j _ hextra => exact any_keyed hextra n
    | extra name k _ hextra =>
      obtain ⟨pre, post, pre', post', hpre, hpost, -, hkeys, hkeys'⟩ := hextra
      rw [hpre, hpost, List.any_append, List.any_append, List.any_cons, List.any_cons,
        any_keyed hkeys, any_keyed hkeys']
  slot {b b'} h _ _ hxy i hfree := by
    cases h with
    | slot j hslots hextra =>
      refine .slot j (hslots.set ?_ (.some hxy)) hextra
      rintro rfl
      simp [BoundArgs.slot, hslots.getElem?.1] at hfree
    | extra name k hslots hextra => exact .extra name k (forall₂_set hslots (.some hxy) i) hextra
  extra {b b'} h _ _ hxy n := by
    cases h with
    | slot j hslots hextra => exact .slot j hslots (List.rel_append hextra (.cons ⟨rfl, hxy⟩ .nil))
    | extra name k hslots hextra => exact .extra name k hslots (hextra.concat ⟨rfl, hxy⟩)

namespace CallOf

variable {Q : BoundArgs ε → BoundArgs ε' → Prop} {c : CallOf ε} {params : List String}
variable {allowExtra : Bool} {b r : BoundArgs ε} {b' : BoundArgs ε'}

theorem place_ok {next : Nat} {a : Arg ε} {place : ArgPlace}
    (h : c.place params allowExtra next a = .ok place) (c' : CallOf ε') {a' : Arg ε'}
    (hname : a'.name = a.name) : c'.place params allowExtra next a' = .ok place := by
  unfold CallOf.place at h ⊢
  rw [hname]
  cases hn : a.name with
  | some name =>
    rw [hn] at h
    dsimp only at h ⊢
    cases hi : params.idxOf? name with
    | some i => rw [hi] at h; exact h
    | none =>
      rw [hi] at h
      cases allowExtra with
      | true => exact h
      | false => cases h
  | none =>
    rw [hn] at h
    dsimp only at h ⊢
    split at h
    · rename_i hlt
      rw [if_pos hlt]
      exact h
    · cases h

theorem put_ok (hQ : Binds R Q) {a : Arg ε} {a' : Arg ε'} (ha : a.Rel R a') (hb : Q b b')
    {place : ArgPlace} (h : put params a b place = .ok r) :
    ∃ r', put params a' b' place = .ok r' ∧ Q r r' := by
  cases place with
  | slot i =>
    rw [put] at h
    split at h
    · cases h
    · rename_i hfree
      cases h
      rw [put, hQ.taken hb, if_neg hfree]
      exact ⟨_, rfl, hQ.slot hb ha.2 (by simpa using hfree)⟩
  | extra name =>
    rw [put] at h
    split at h
    · cases h
    · rename_i hfree
      cases h
      rw [put, hQ.named hb, if_neg hfree]
      exact ⟨_, rfl, hQ.extra hb ha.2 name⟩

theorem bindFrom_ok (hQ : Binds R Q) {as : List (Arg ε)} {as' : List (Arg ε')}
    (has : List.Forall₂ (Arg.Rel R) as as') (c' : CallOf ε') {next : Nat} (hb : Q b b')
    (h : c.bindFrom params allowExtra as next b = .ok r) :
    ∃ r', c'.bindFrom params allowExtra as' next b' = .ok r' ∧ Q r r' := by
  induction has generalizing next b b' with
  | nil => cases h; exact ⟨b', rfl, hb⟩
  | @cons a a' as as' ha _ ih =>
    rw [bindFrom] at h
    cases hplace : c.place params allowExtra next a with
    | error e => rw [hplace] at h; cases h
    | ok place =>
      rw [hplace] at h
      cases hput : put params a b place with
      | error e =>
        replace h : (put params a b place >>= _) = .ok r := h
        rw [hput] at h
        cases h
      | ok b₁ =>
        replace h : (put params a b place >>= _) = .ok r := h
        rw [hput] at h
        obtain ⟨b₁', hput', hb₁⟩ := put_ok hQ ha hb hput
        obtain ⟨r', hr', hr⟩ := ih hb₁ h
        refine ⟨r', ?_, hr⟩
        rw [bindFrom, place_ok hplace c' ha.1]
        show (put params a' b' place >>= _) = _
        rw [hput']
        show c'.bindFrom params allowExtra as' (if a'.name.isNone then next + 1 else next) b₁' = _
        rw [ha.1]
        exact hr'

theorem start_rel (params : List String) :
    BoundArgs.Rel R ⟨params.map fun _ => none, []⟩ ⟨params.map fun _ => none, []⟩ where
  slots := by
    induction params with
    | nil => exact .nil
    | cons _ _ ih => exact .cons .none ih
  extra := .nil

/-- **Related arguments** are bound to the same parameters. -/
theorem bind_rel {c' : CallOf ε'} (hargs : List.Forall₂ (Arg.Rel R) c.args c'.args)
    (h : c.bind params allowExtra = .ok r) :
    ∃ r', c'.bind params allowExtra = .ok r' ∧ r.Rel R r' :=
  bindFrom_ok binds_rel hargs c' (start_rel params) h

theorem bindFrom_append (xs ys : List (Arg ε)) (next : Nat) :
    c.bindFrom params allowExtra (xs ++ ys) next b = (do
      let b ← c.bindFrom params allowExtra xs next b
      c.bindFrom params allowExtra ys (next + xs.countP (·.name.isNone)) b) := by
  induction xs generalizing next b with
  | nil => rfl
  | cons a xs ih =>
    rw [List.cons_append, bindFrom, bindFrom]
    cases c.place params allowExtra next a with
    | error e => rfl
    | ok place =>
      show (put params a b place >>= _) = (put params a b place >>= _) >>= _
      cases put params a b place with
      | error e => rfl
      | ok b₁ =>
        show c.bindFrom params allowExtra (xs ++ ys) _ b₁ =
          c.bindFrom params allowExtra xs _ b₁ >>= _
        rw [ih, List.countP_cons]
        cases a.name.isNone <;> simp [Nat.add_assoc, Nat.add_comm]

theorem place_lt {next i : Nat} {a : Arg ε}
    (h : c.place params allowExtra next a = .ok (.slot i)) : i < params.length := by
  unfold CallOf.place at h
  cases hn : a.name with
  | some name =>
    rw [hn] at h
    dsimp only at h
    cases hi : params.idxOf? name with
    | some j =>
      rw [hi] at h
      cases h
      exact (List.findIdx?_eq_some_iff_getElem.1 hi).1
    | none => rw [hi] at h; cases allowExtra <;> cases h
  | none =>
    rw [hn] at h
    dsimp only at h
    split at h
    · cases h; assumption
    · cases h

/-- Every parameter has a slot. -/
theorem binds_full (params : List String) :
    Binds R fun b b' => b.Rel R b' ∧ b.slots.length = params.length where
  taken h := binds_rel.taken h.1
  named h := binds_rel.named h.1
  slot h _ _ hxy _ hfree := ⟨binds_rel.slot h.1 hxy hfree, by rw [List.length_set]; exact h.2⟩
  extra h _ _ hxy n := ⟨binds_rel.extra h.1 hxy n, h.2⟩

theorem put_holed {a : Arg ε} (a' : Arg ε') (hb : b.Rel R b') {place : ArgPlace}
    (hplace : ∀ i, place = .slot i → i < b.slots.length) (h : put params a b place = .ok r) :
    ∃ r', put params a' b' place = .ok r' ∧ BoundArgs.Holed R a.value a'.value place r r' := by
  cases place with
  | slot i =>
    rw [put] at h
    split at h
    · cases h
    · rename_i hfree
      cases h
      rw [put, binds_rel.taken hb, if_neg hfree]
      exact ⟨_, rfl, .slot i (around_set hb.slots (hplace i rfl) _ _) hb.extra⟩
  | extra name =>
    rw [put] at h
    split at h
    · cases h
    · rename_i hfree
      cases h
      rw [put, binds_rel.named hb, if_neg hfree]
      exact ⟨_, rfl, .extra name b.extra.length hb.slots
        ⟨b.extra, [], b'.extra, [], rfl, rfl, rfl, hb.extra, .nil⟩⟩

/-- **One pair of arguments** that is related in another way is found at its place. -/
theorem bind_holed {c' : CallOf ε'} {i : Nat} {a : Arg ε} {a' : Arg ε'}
    (hargs : Around (Arg.Rel R) i a a' c.args c'.args) (hname : a'.name = a.name)
    (h : c.bind params allowExtra = .ok r) :
    ∃ place r',
      c.place params allowExtra ((c.args.take i).countP (·.name.isNone)) a = .ok place ∧
        c'.bind params allowExtra = .ok r' ∧ BoundArgs.Holed R a.value a'.value place r r' := by
  obtain ⟨pre, post, pre', post', hsplit, hsplit', rfl, hpre, hpost⟩ := hargs
  have hcount : pre'.countP (·.name.isNone) = pre.countP (·.name.isNone) := by
    clear hsplit hsplit'
    induction hpre with
    | nil => rfl
    | cons ha _ ih => rw [List.countP_cons, List.countP_cons, ih, ha.1]
  rw [bind, hsplit, bindFrom_append] at h
  rw [hsplit, List.take_left, bind, hsplit', bindFrom_append, hcount, Nat.zero_add]
  rw [Nat.zero_add] at h
  cases hb : c.bindFrom params allowExtra pre 0 ⟨params.map fun _ => none, []⟩ with
  | error e => rw [hb] at h; cases h
  | ok b =>
    rw [hb] at h
    obtain ⟨b', hb', hrel, hlen⟩ :=
      bindFrom_ok (binds_full params) hpre c' ⟨start_rel params, by simp⟩ hb
    rw [hb']
    replace h : c.bindFrom params allowExtra (a :: post) _ b = .ok r := h
    show ∃ place r', _ ∧ c'.bindFrom params allowExtra (a' :: post') _ b' = .ok r' ∧ _
    rw [bindFrom] at h
    cases hplace : c.place params allowExtra (pre.countP (·.name.isNone)) a with
    | error e => rw [hplace] at h; cases h
    | ok place =>
      rw [hplace] at h
      replace h : (put params a b place >>= _) = .ok r := h
      cases hput : put params a b place with
      | error e => rw [hput] at h; cases h
      | ok b₁ =>
        rw [hput] at h
        obtain ⟨b₁', hput', hb₁⟩ := put_holed a' hrel
          (fun i hi => hlen ▸ place_lt (hi ▸ hplace)) hput
        obtain ⟨r', hr', hr⟩ := bindFrom_ok (binds_holed _ _ _) hpost c' hb₁ h
        refine ⟨place, r', rfl, ?_, hr⟩
        rw [bindFrom, place_ok hplace c' hname]
        show (put params a' b' place >>= _) = _
        rw [hput', hname]
        exact hr'

/-- The arguments that remember where they come from, without that. -/
theorem attach_args (c : CallOf ε) :
    c.attach.args.map (fun a => ⟨a.name, a.value.1, a.position⟩) = c.args := by
  rw [attach, List.map_map]
  exact (List.map_congr_left fun _ _ => rfl).trans c.args.attach_map_subtype_val

theorem forall₂_attach {c : CallOf ε} {c' : CallOf ε'}
    (h : List.Forall₂ (Arg.Rel R) c.args c'.args) :
    List.Forall₂ (Arg.Rel fun x y => R x.1 y.1) c.attach.args c'.attach.args := by
  rw [← attach_args c, ← attach_args c', List.forall₂_map_left_iff,
    List.forall₂_map_right_iff] at h
  exact h

theorem around_attach {c : CallOf ε} {c' : CallOf ε'} {i : Nat} {a : Arg ε} {a' : Arg ε'}
    (h : Around (Arg.Rel R) i a a' c.args c'.args) :
    ∃ b b', Around (Arg.Rel fun x y => R x.1 y.1) i b b' c.attach.args c'.attach.args ∧
      b.name = a.name ∧ b.value.1 = a.value ∧ b'.name = a'.name ∧ b'.value.1 = a'.value := by
  obtain ⟨pre, post, pre', post', hsplit, hsplit', rfl, hpre, hpost⟩ := h
  rw [← attach_args] at hsplit hsplit'
  obtain ⟨xs, ys, hxs, rfl, hys⟩ := List.map_eq_append_iff.1 hsplit
  obtain ⟨b, ys, rfl, rfl, rfl⟩ := List.map_eq_cons_iff.1 hys
  obtain ⟨xs', ys', hxs', rfl, hys'⟩ := List.map_eq_append_iff.1 hsplit'
  obtain ⟨b', ys', rfl, rfl, rfl⟩ := List.map_eq_cons_iff.1 hys'
  rw [List.forall₂_map_left_iff, List.forall₂_map_right_iff] at hpre hpost
  exact ⟨b, b', ⟨xs, ys, xs', ys', hxs, hxs', by simp, hpre, hpost⟩, rfl, rfl, rfl, rfl⟩

end CallOf

end BarScript
