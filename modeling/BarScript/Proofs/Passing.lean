import BarScript.Proofs.Hoisting
import BarScript.Proofs.Mirroring

/-!
# Resolution of a named argument

`Passes`: the first of two resolutions resolves the series argument `e` at some point, and takes a
computed slot for it; the second one finds the name `v` there and takes nothing. What comes before
mirrors at one distance, what comes after at another, and the results differ by the hoisting of the
series (`passes_expr`).
-/

namespace BarScript

/-- A hoisting of `e` with the regions before and after it. -/
structure Setting where
  ρ : Renaming
  H : Hoisting ρ
  before : Region ρ H.others
  after : Region ρ .all

/-- The series of the hoisting is `e` as it is resolved between the scopes `a` and `b`, and what is
taken for it makes the difference between the regions. -/
structure Setting.Fits (S : Setting) (e : Expr) (a b : Scope) : Prop where
  source : Resolve.source e a = .ok (S.H.source, b)
  shift : ∀ bank, S.after.shift bank = S.before.shift bank + a.taken bank - b.taken bank
  turn : S.after.turn = S.before.turn + a.handles - b.handles

namespace Resolve

variable {β γ β' γ' β'' γ'' : Type}

section

variable (v : String) (e : Expr)

/-- The first computation resolves `e`, and the second one finds the name `v` there. -/
def Passes (Rel : Setting → β → γ → Prop) (m : ResolveM β) (m' : ResolveM γ) : Prop :=
  ∀ s, Yields m s fun x s₁ => ∃ a b id n, s.Grew a ∧ source e a = .ok (.computed id n, b) ∧
    b.Le s₁ ∧ ∀ S : Setting, S.Fits e a b → S.before.Covers s a → S.after.Covers b s₁ →
      ∀ s', S.before.Shifted v s s' →
        s'.find? v = some (.series S.H.target.1 S.H.target.2) →
          ∃ x' s₁', m' s' = .ok (x', s₁') ∧ Rel S x x' ∧ S.after.Shifted v s₁ s₁'

namespace Passes

variable {v e}
variable {Rel : Setting → β → γ → Prop} {Rel' : Setting → β' → γ' → Prop}
variable {Rel'' : Setting → β'' → γ'' → Prop} {m : ResolveM β} {m' : ResolveM γ}

/-- The first computation fails. -/
theorem absurd (hm : ∀ s, Yields m s fun _ _ => False) : Passes v e Rel m m' :=
  fun s x s₁ hx => (hm s x s₁ hx).elim

theorem mono {Rel' : Setting → β → γ → Prop} (hm : Passes v e Rel m m')
    (h : ∀ S x x', Rel S x x' → Rel' S x x') : Passes v e Rel' m m' := by
  intro s x s₁ hx
  obtain ⟨a, b, id, n, hgrew, hsource, hle, hpass⟩ := hm s x s₁ hx
  refine ⟨a, b, id, n, hgrew, hsource, hle, fun S hS hb ha s' hs' hv => ?_⟩
  obtain ⟨x', s₁', hx', hrel, hs₁⟩ := hpass S hS hb ha s' hs' hv
  exact ⟨x', s₁', hx', h S x x' hrel, hs₁⟩

/-- What is known of the first result. -/
theorem yielding {P : β → Prop} (hm : Passes v e Rel m m')
    (hP : ∀ s, Yields m s fun x _ => P x) : Passes v e (fun S x x' => P x ∧ Rel S x x') m m' := by
  intro s x s₁ hx
  obtain ⟨a, b, id, n, hgrew, hsource, hle, hpass⟩ := hm s x s₁ hx
  refine ⟨a, b, id, n, hgrew, hsource, hle, fun S hS hb ha s' hs' hv => ?_⟩
  obtain ⟨x', s₁', hx', hrel, hs₁⟩ := hpass S hS hb ha s' hs' hv
  exact ⟨x', s₁', hx', ⟨hP s x s₁ hx, hrel⟩, hs₁⟩

/-- `e` is in what comes first. -/
theorem first {f : β → ResolveM β'} {f' : γ → ResolveM γ'} [hgrows : ∀ x, Grows (f x)]
    (hm : Passes v e Rel m m')
    (hf : ∀ S x x', Rel S x x' → Mirrors S.after v (Rel' S) (f x) (f' x')) :
    Passes v e Rel' (m >>= f) (m' >>= f') := by
  intro s
  refine .bind fun x s₁ hx y s₂ hy => ?_
  obtain ⟨a, b, id, n, hgrew, hsource, hle, hpass⟩ := hm s x s₁ hx
  have hle₂ := ((hgrows x).le s₁) y s₂ hy
  refine ⟨a, b, id, n, hgrew, hsource, hle.trans hle₂, fun S hS hb ha s' hs' hv => ?_⟩
  obtain ⟨x', s₁', hx', hrel, hs₁⟩ := hpass S hS hb (ha.left hle₂) s' hs' hv
  obtain ⟨y', s₂', hy', hrel', hs₂⟩ := hf S x x' hrel s₁ s₁' hs₁ y s₂ hy (ha.right hle)
  exact ⟨y', s₂', (bind_ok hx').trans hy', hrel', hs₂⟩

theorem map {g : β → β'} {g' : γ → γ'} (hm : Passes v e Rel m m')
    (hg : ∀ S x x', Rel S x x' → Rel' S (g x) (g' x')) :
    Passes v e Rel' (do let x ← m; pure (g x)) (do let x ← m'; pure (g' x)) :=
  hm.first fun S x x' h => .pure (hg S x x' h)

/-- `e` is in what comes second, and that does not depend on what comes first. -/
theorem middle {m₂ : ResolveM β'} {m₂' : ResolveM γ'} {k : β → β' → ResolveM β''}
    {k' : γ → γ' → ResolveM γ''} [hkeeps : Keeps m] [hkeeps' : Keeps m']
    [hgrows : ∀ x y, Grows (k x y)] (hm : ∀ S : Setting, Mirrors S.before v (Rel S) m m')
    (hm₂ : Passes v e Rel' m₂ m₂')
    (hk : ∀ S x x' y y', Rel S x x' → Rel' S y y' →
      Mirrors S.after v (Rel'' S) (k x y) (k' x' y')) :
    Passes v e Rel'' (m >>= fun x => m₂ >>= k x) (m' >>= fun x' => m₂' >>= k' x') := by
  intro s
  refine .bind fun x s₁ hx => .bind fun y s₂ hy z s₃ hz => ?_
  have hgrew₁ := hkeeps.grew s x s₁ hx
  obtain ⟨a, b, id, n, hgrew, hsource, hle, hpass⟩ := hm₂ s₁ y s₂ hy
  have hle₃ := ((hgrows x y).le s₂) z s₃ hz
  refine ⟨a, b, id, n, hgrew₁.trans hgrew, hsource, hle.trans hle₃, fun S hS hb ha s' hs' hv => ?_⟩
  obtain ⟨x', s₁', hx', hrel, hs₁⟩ := hm S s s' hs' x s₁ hx (hb.left hgrew.toLe)
  have hv₁ := (hkeeps'.grew s' x' s₁' hx').find? v
  obtain ⟨y', s₂', hy', hrel', hs₂⟩ :=
    hpass S hS (hb.right hgrew₁.toLe) (ha.left hle₃) s₁' hs₁ (hv₁.trans hv)
  obtain ⟨z', s₃', hz', hrel'', hs₃⟩ :=
    hk S x x' y y' hrel hrel' s₂ s₂' hs₂ z s₃ hz (ha.right hle)
  exact ⟨z', s₃', (bind_ok hx').trans ((bind_ok hy').trans hz'), hrel'', hs₃⟩

/-- What does not look at the scope comes first. -/
theorem afterFree {R : β → γ → Prop} {f : β → ResolveM β'} {f' : γ → ResolveM γ'}
    (hm : Free R m m') (hf : ∀ x x', R x x' → Passes v e Rel' (f x) (f' x')) :
    Passes v e Rel' (m >>= f) (m' >>= f') := by
  intro s
  refine .bind fun x s₁ hx y s₂ hy => ?_
  obtain ⟨rfl, x', hrel, hx'⟩ := hm s x s₁ hx
  obtain ⟨a, b, id, n, hgrew, hsource, hle, hpass⟩ := hf x x' hrel s₁ y s₂ hy
  refine ⟨a, b, id, n, hgrew, hsource, hle, fun S hS hb ha s' hs' hv => ?_⟩
  obtain ⟨y', s₂', hy', hrel', hs₂⟩ := hpass S hS hb ha s' hs' hv
  exact ⟨y', s₂', (bind_ok (hx' s')).trans hy', hrel', hs₂⟩

theorem each {B A F : Setting → β' → γ' → Prop} {f : β → ResolveM β'} {f' : γ → ResolveM γ'}
    [hf : ∀ x, Keeps (f x)] [hf' : ∀ x, Keeps (f' x)] {xs : List β} {xs' : List γ}
    (h : OneAt (fun x x' => ∀ S : Setting, Mirrors S.before v (B S) (f x) (f' x'))
      (fun x x' => Passes v e A (f x) (f' x'))
      (fun x x' => ∀ S : Setting, Mirrors S.after v (F S) (f x) (f' x')) xs xs') :
    Passes v e (fun S => OneAt (B S) (A S) (F S)) (Resolve.each f xs) (Resolve.each f' xs') := by
  induction h with
  | head hx hxs =>
    exact hx.first fun S y y' hy => (Mirrors.each (hxs.imp fun _ _ h => h S)).map fun _ _ hys =>
      .head hy hys
  | tail hx _ ih => exact middle hx ih fun S y y' ys ys' hy hys => .pure (.tail hy hys)

/-- The series itself. -/
theorem here (he : ∀ n p, e ≠ .name n p) (r : Nat) :
    Passes v e (fun S s s' => Bound.Hoisted S.H false (.series s) (.series s')) (source e)
      (source (.name v r)) := by
  intro s src s₁ hsrc
  have hnone : namedSource? s e = none := by
    unfold namedSource?
    split
    · rename_i n p
      exact (he n p rfl).elim
    · rfl
  have hcomputed : ∃ id n, src = .computed id n := by
    have hy : Yields (source e) s fun src _ => ∃ id n, src = .computed id n := by
      rw [source]
      refine .bind (yields_get ?_)
      rw [hnone]
      exact .bind fun n s₂ _ => .bind (yields_slot (.pure ⟨_, n, rfl⟩))
    exact hy src s₁ hsrc
  obtain ⟨id, n, rfl⟩ := hcomputed
  have hgrew := (inferInstance : Keeps (source e)).grew s _ _ hsrc
  refine ⟨s, s₁, id, n, .refl s, hsrc, .refl s₁, fun S hS hb ha s' hs' hv => ?_⟩
  have hmoved : source (.name v r) s' = .ok (S.H.moved, s') := by
    have hget : (get : ResolveM Scope) s' = .ok (s', s') := rfl
    rw [source, bind_ok hget]
    simp only [namedSource?, hv]
    rfl
  have hsource : S.H.source = .computed id n := by
    have := hS.source.symm.trans hsrc
    simp only [Except.ok.injEq, Prod.mk.injEq, and_true] at this
    exact this
  refine ⟨_, s', hmoved, hsource ▸ .here, fun m hm => ?_, fun bank => ?_, ?_⟩
  · rw [hgrew.find?]
    exact hs'.names m hm
  · rw [hs'.taken, hS.shift]
    omega
  · rw [hs'.handles, hS.turn]
    omega

end Passes

end

end Resolve

end BarScript
