import BarScript.Proofs.Course
import BarScript.Proofs.Slots
import BarScript.Proofs.Spots

/-!
# What feeds the calls of a compiled script

A call of a compiled script has an argument for each of its parameters, and the variable that it
consumes, if it consumes one, has been set before it in the same step (`FedAfter`): what a statement
reads has been declared by an earlier one. With the handles that makes a program `WellFed`
(`compile_wellFed`).
-/

namespace BarScript

/-! ## Calls among the effects -/

/-- Every call among the effects `es` is one of the spots, and a variable that is its source is one
of those that are read. -/
structure Covered (es : List Effect) (spots : List Spot) (reads : List (Bank × Nat)) : Prop where
  spot : ∀ k, .call k ∈ es → .call k ∈ spots
  feed : ∀ e ∈ es, ∀ a, e.bareSource? = some a → a ∈ reads

namespace Covered

variable {es es' : List Effect} {spots spots' : List Spot} {reads reads' : List (Bank × Nat)}

theorem nil : Covered [] spots reads := ⟨nofun, nofun⟩

theorem append (h : Covered es spots reads) (h' : Covered es' spots' reads') :
    Covered (es ++ es') (spots ++ spots') (reads ++ reads') where
  spot k hk := List.mem_append.2 ((List.mem_append.1 hk).imp (h.spot k) (h'.spot k))
  feed e he a ha :=
    List.mem_append.2 ((List.mem_append.1 he).imp (h.feed e · a ha) (h'.feed e · a ha))

theorem more (h : Covered es spots reads) (spots' : List Spot) :
    Covered es (spots ++ spots') reads :=
  ⟨fun k hk => List.mem_append_left _ (h.spot k hk), h.feed⟩

/-- Writes are no calls. -/
theorem written (h : Covered es spots reads) (as : List (Bank × Nat)) :
    Covered (es ++ as.map fun a => .set a.1 a.2) spots reads where
  spot k hk := h.spot k ((List.mem_append.1 hk).resolve_right (by simp))
  feed e he a ha := by
    refine h.feed e ((List.mem_append.1 he).resolve_right fun he => ?_) a ha
    obtain ⟨a, -, rfl⟩ := List.mem_map.1 he
    cases ha

theorem flatMap {β : Type} {xs : List β} {f : β → List Effect} {g : β → List Spot}
    {r : β → List (Bank × Nat)} (h : ∀ x ∈ xs, Covered (f x) (g x) (r x)) :
    Covered (xs.flatMap f) (xs.flatMap g) (xs.flatMap r) where
  spot k hk := by
    obtain ⟨x, hx, hk⟩ := List.mem_flatMap.1 hk
    exact List.mem_flatMap.2 ⟨x, hx, (h x hx).spot k hk⟩
  feed e he a ha := by
    obtain ⟨x, hx, he⟩ := List.mem_flatMap.1 he
    exact List.mem_flatMap.2 ⟨x, hx, (h x hx).feed e he a ha⟩

/-- A call stands behind its arguments, and its source is the first of them. -/
theorem called {k : StudyCall} (h : Covered (Bound.allEffects k.args) (Bound.allSpots k.args)
    (Bound.allReads k.args)) : Covered k.effects k.spots (Bound.allReads k.args) where
  spot k' hk := List.mem_append.2 ((List.mem_append.1 hk).imp (h.spot k') fun hk => by
    obtain ⟨rfl⟩ := List.mem_singleton.1 hk
    exact List.mem_singleton_self _)
  feed e he a ha := by
    rcases List.mem_append.1 he with he | he
    · exact h.feed e he a ha
    · obtain rfl := List.mem_singleton.1 he
      simp only [Effect.bareSource?] at ha
      split at ha
      · rename_i bank id _ hfirst
        cases ha
        rw [Bound.allReads_eq]
        exact List.mem_flatMap.2 ⟨_, List.mem_of_getElem? hfirst, .head _⟩
      · cases ha

mutual

theorem node (n : Node) : Covered n.effects n.spots n.reads := by
  cases n with
  | read s o =>
    rw [Node.effects, Node.spots, Node.reads]
    exact (offset o).append (source s)
  | clock k o => rw [Node.effects, Node.spots, Node.reads]; exact offset o
  | unary op operand => rw [Node.effects, Node.spots, Node.reads]; exact node operand
  | binary op left right =>
    rw [Node.effects, Node.spots, Node.reads]
    exact (node left).append (node right)
  | ternary cond yes no =>
    rw [Node.effects, Node.spots, Node.reads]
    exact (node cond).append ((node yes).append (node no))
  | study k =>
    obtain ⟨study, args, handle⟩ := k
    rw [Node.effects, Node.spots, Node.reads]
    exact called (k := ⟨study, args, handle⟩) (bounds args)
  | math f args =>
    rw [Node.effects, Node.spots, Node.reads]
    exact (nodes args).more _
  | isNa operand => rw [Node.effects, Node.spots, Node.reads]; exact node operand
  | nz operand replacement =>
    rw [Node.effects, Node.spots, Node.reads]
    exact (node operand).append (node replacement)
  | _ => rw [Node.effects]; exact nil

theorem offset (o : Option Node) :
    Covered (Node.offsetEffects o) (Node.offsetSpots o) (Node.offsetReads o) := by
  cases o with
  | none => exact nil
  | some n => exact (node n).more _

theorem source (s : Source) : Covered s.effects s.spots s.reads := by
  cases s with
  | computed id value =>
    rw [Source.effects, Source.spots, Source.reads]
    exact (node value).written [(.computed, id)]
  | _ => rw [Source.effects]; exact nil

theorem bounds (bs : List Bound) :
    Covered (Bound.allEffects bs) (Bound.allSpots bs) (Bound.allReads bs) := by
  cases bs with
  | nil => exact nil
  | cons b bs =>
    rw [Bound.allEffects, Bound.allSpots, Bound.allReads]
    exact (bound b).append (bounds bs)

theorem bound (b : Bound) : Covered b.effects b.spots b.reads := by
  cases b with
  | series s => rw [Bound.effects, Bound.spots, Bound.reads]; exact source s
  | number n => rw [Bound.effects, Bound.spots, Bound.reads]; exact node n
  | absent => exact nil

theorem nodes (ns : List Node) :
    Covered (Node.allEffects ns) (Node.allSpots ns) (Node.allReads ns) := by
  cases ns with
  | nil => exact nil
  | cons n ns =>
    rw [Node.allEffects, Node.allSpots, Node.allReads]
    exact (node n).append (nodes ns)

end

theorem option (o : OptionNode) : Covered o.effects o.spots o.reads := by
  induction o with
  | number n => exact node n
  | rgb channels => exact nodes channels
  | newColor base alpha ih =>
    refine ih.append ?_
    cases alpha with
    | none => exact nil
    | some n => exact node n
  | _ => exact nil

theorem options (os : OptionNodes) : Covered (optionEffects os) (optionSpots os) (optionReads os) :=
  flatMap fun o _ => option o.2

theorem drawing (d : Drawing) : Covered d.effects d.spots d.reads := by
  cases d with
  | plot value title os char => exact (node value).append (options os)
  | candle opening high low close title os bar =>
    exact (node opening).append ((node high).append ((node low).append
      ((node close).append (options os))))
  | fill plot1 plot2 os => exact options os
  | hline price title os => exact (node price).append (options os)
  | indicator title shortTitle overlay => exact nil

theorem op (o : Op) : Covered o.effects o.spots o.reads := by
  cases o with
  | set bank id value => exact (node value).written [(bank, id)]
  | init bank id value => exact (node value).written [(bank, id)]
  | unpack k targets =>
    have h := (called (bounds k.args)).written (targets.map (Bank.bindings, ·))
    rwa [List.map_map] at h
  | eval n => exact node n
  | draw d => exact drawing d

theorem result (r : Result) : Covered r.effects r.spots r.reads := by
  cases r with
  | single n => exact node n
  | named fields => exact flatMap fun f _ => node f.2

end Covered

theorem Program.call_mem_spots (p : Program) {k : StudyCall} (hk : .call k ∈ p.effects) :
    .call k ∈ p.spots := by
  refine List.mem_append.2 ((List.mem_append.1 hk).imp (fun hk => ?_) fun hk => ?_)
  · exact (Covered.flatMap fun o _ => Covered.op o).spot k hk
  · cases hresult : p.result with
    | none => rw [hresult] at hk; cases hk
    | some r => rw [hresult] at hk; exact (Covered.result r).spot k hk

/-! ## Variables that have been set -/

/-- A variable that is the source of a call through the cache is one of `seen`, or has been set
before it. -/
def FedAfter (seen : Bank × Nat → Prop) : List Effect → Prop
  | [] => True
  | e :: es =>
    (∀ a, e.bareSource? = some a → seen a) ∧
      FedAfter (fun a => e.slot? = some a ∧ a.1 ≠ .computed ∨ seen a) es

namespace FedAfter

variable {seen seen' : Bank × Nat → Prop} {es es' : List Effect}

theorem mono (h : FedAfter seen es) (hseen : ∀ a, seen a → seen' a) : FedAfter seen' es := by
  induction es generalizing seen seen' with
  | nil => trivial
  | cons e es ih =>
    exact ⟨fun a ha => hseen a (h.1 a ha), ih h.2 fun a => Or.imp_right (hseen a)⟩

theorem append (h : FedAfter seen es) (h' : FedAfter seen' es')
    (hseen : ∀ a, seen' a → seen a ∨ .set a.1 a.2 ∈ es ∧ a.1 ≠ .computed) :
    FedAfter seen (es ++ es') := by
  induction es generalizing seen with
  | nil => exact h'.mono fun a ha => (hseen a ha).resolve_right fun h => nomatch h.1
  | cons e es ih =>
    refine ⟨h.1, ih h.2 fun a ha => ?_⟩
    rcases hseen a ha with ha | ⟨ha, hbank⟩
    · exact .inl (.inr ha)
    · rcases List.mem_cons.1 ha with rfl | ha
      · exact .inl (.inl ⟨rfl, hbank⟩)
      · exact .inr ⟨ha, hbank⟩

/-- Every source has been seen from the start. -/
theorem of_seen (h : ∀ e ∈ es, ∀ a, e.bareSource? = some a → seen a) : FedAfter seen es := by
  induction es generalizing seen with
  | nil => trivial
  | cons e es ih =>
    exact ⟨h e (.head _), ih fun e he a ha => .inr (h e (.tail _ he) a ha)⟩

end FedAfter

theorem Op.set_of_target {o : Op} {a : Bank × Nat} (h : a ∈ o.targets) :
    .set a.1 a.2 ∈ o.effects := by
  cases o with
  | set bank id value => cases List.mem_singleton.1 h; simp [effects]
  | init bank id value => cases List.mem_singleton.1 h; simp [effects]
  | unpack k targets =>
    obtain ⟨id, hid, rfl⟩ := List.mem_map.1 h
    exact List.mem_append_right _ (List.mem_map_of_mem hid)
  | eval n => cases h
  | draw d => cases h

theorem Statement.target_of_declared {st : Statement} {o : Op} {a : Bank × Nat}
    (h : a ∈ st.declared o) : a ∈ o.targets := by
  cases st with
  | declare kind nm value position => exact h
  | unpack names call position => exact h
  | _ => cases h

namespace Resolve

/-- An unpacking has a target for each value. -/
theorem yields_filled (st : Statement) {s : Scope} (hs : s.Sound) :
    Yields (statement st) s fun c _ => ∀ o, c = .op o → o.Filled := by
  cases st with
  | declare kind nm value position =>
    have hdeclaration : Yields (declaration kind nm value position) s fun o _ => o.Filled := by
      unfold declaration
      split
      · exact .bind fun _ _ _ => .bind fun _ _ _ => .pure trivial
      · refine .bind fun _ _ _ => .bind fun _ _ _ => .bind fun _ _ _ => ?_
        split <;> exact .pure trivial
    refine .bind fun o s₁ ho => .pure ?_
    rintro _ ⟨⟩
    exact hdeclaration o s₁ ho
  | reassign nm value position =>
    refine .bind fun a s₁ _ => .bind fun v s₂ _ => .pure ?_
    rintro _ ⟨⟩
    trivial
  | unpack names call position =>
    refine .bind fun k s₁ hk => ?_
    dsimp only
    split
    · exact .bind yields_fail
    · rename_i harity
      have hsound := (yields_study call hs k s₁ hk).sound
      refine .bind ((yields_targets position names hsound).mono fun ids s₂ h₂ => .pure ?_)
      rintro _ ⟨⟩
      exact h₂.2.1.trans (not_not.1 harity).symm
  | expr e =>
    have hexpression : Yields (expression e) s fun o _ => o.Filled := by
      unfold expression
      dsimp only
      split
      · split <;> exact .bind fun _ _ _ => .pure trivial
      · exact .bind fun _ _ _ => .pure trivial
    refine .bind fun o s₁ ho => .pure ?_
    rintro _ ⟨⟩
    exact hexpression o s₁ ho
  | result value position =>
    cases value with
    | single e => exact .bind fun _ _ _ => .pure (by rintro _ ⟨⟩)
    | named xs => exact .bind fun _ _ _ => .pure (by rintro _ ⟨⟩)

theorem Resolved.filled {ss : List Statement} {s s' : Scope} {os : List Op} {r : Option Result}
    (hs : s.Sound) (h : Resolved s ss os r s') : ∀ o ∈ os, o.Filled := by
  intro o ho
  obtain ⟨i, hi⟩ := List.mem_iff_getElem?.1 ho
  obtain ⟨st, s₀, s₁, -, hbefore, hstatement⟩ := h.op_at hi
  exact yields_filled st (hbefore.sound hs) _ _ hstatement o rfl

/-- **Variables that calls consume** are known to the scope, or are set by earlier statements. -/
theorem Resolved.fedAfter {ss : List Statement} {s s' : Scope} {os : List Op} {r : Option Result}
    (h : Resolved s ss os r s') :
    FedAfter (· ∈ s.slots) (os.flatMap Op.effects ++ r.elim [] Result.effects) := by
  induction h with
  | nil => trivial
  | @op s s₁ s' st ss o os r ho hos ih =>
    have hone := slotted_statement st s _ _ ho o rfl
    rw [List.flatMap_cons, List.append_assoc]
    refine .append (.of_seen fun e he a ha => ?_) ih fun a ha => ?_
    · exact hone.reads a ((Covered.op o).feed e he a ha)
    · rw [hone.slots, List.mem_append] at ha
      exact ha.imp_right fun h =>
        ⟨Op.set_of_target (Statement.target_of_declared h), hone.bank_ne a h⟩
  | @result s s' st r hr =>
    refine .of_seen fun e he a ha => ?_
    exact (reads_result st s _ _ hr r rfl).2 a ((Covered.result r).feed e he a ha)

end Resolve

/-! ## Programs -/

/-- Every call of a program has what it needs when it is made. -/
structure Program.WellFed (p : Program) : Prop where
  /-- The handles are numbered in the order of the calls. -/
  handles : p.effects.filterMap Effect.handle? = List.range p.summary.cacheSites
  /-- Only the calls of cached indicators have one. -/
  cached : ∀ k, .call k ∈ p.effects → k.handle ≠ none → k.study.cached = true
  fits : ∀ k, .call k ∈ p.effects → k.Fits
  filled : ∀ o ∈ p.ops, o.Filled
  fed : FedAfter (fun _ => False) p.effects

/-- **Every call of a compiled script** has what it needs. -/
theorem compile_wellFed {source : String} {p : Program} (h : compile source = .ok p) :
    p.WellFed := by
  obtain ⟨ss, -, hp⟩ := compile_ok h
  obtain ⟨s', hresolved, -⟩ := compileStatements_ok_iff.1 hp
  exact {
    handles := compileStatements_handles hp
    cached := fun k hk => compileStatements_cached hp hk
    fits := fun k hk => compileStatements_spots hp _ (p.call_mem_spots hk)
    filled := hresolved.filled Scope.sound_empty
    fed := hresolved.fedAfter.mono fun a ha => nomatch ha }

end BarScript
