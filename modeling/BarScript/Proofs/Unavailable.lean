import Mathlib
import BarScript.Arith.Double
import BarScript.Proofs.Exact

/-!
# The unavailable number

What a number that is not available does: it makes the result of an operation unavailable
(`Arith.Strict`), and it is on neither side of a comparison and not finite (`Arith.Lawful`). Doubles
and exact numbers are lawful.
-/

namespace BarScript

/-- An operation with an unavailable operand is unavailable. -/
class Arith.Strict (α : Type) [Arith α] : Prop where
  isNaN_nan : isNaN (nan : α) = true
  add : ∀ {a b : α}, isNaN a = true ∨ isNaN b = true → isNaN (a + b) = true
  sub : ∀ {a b : α}, isNaN a = true ∨ isNaN b = true → isNaN (a - b) = true
  mul : ∀ {a b : α}, isNaN a = true ∨ isNaN b = true → isNaN (a * b) = true

/-- The laws of the unavailable number. -/
class Arith.Lawful (α : Type) [Arith α] : Prop extends Arith.Strict α where
  lt : ∀ {a b : α}, isNaN a = true ∨ isNaN b = true → ¬ a < b
  finite : ∀ {a : α}, isFinite a = true → isNaN a = false

instance Exact.lawful : Arith.Lawful Exact where
  isNaN_nan := rfl
  add := by
    intro a b h
    rcases h with h | h <;> rw [isNaN_iff] at h <;> simp [h]
  sub := by
    intro a b h
    rcases h with h | h <;> rw [isNaN_iff] at h <;> simp [h]
  mul := by
    intro a b h
    rcases h with h | h <;> rw [isNaN_iff] at h <;> simp [h]
  lt := by
    intro a b h hlt
    change a.Lt b at hlt
    rcases h with h | h <;> rw [isNaN_iff] at h <;> subst h
    · exact hlt
    · cases a <;> exact hlt
  finite := by
    intro a h
    cases a with
    | fin x => rfl
    | inf n => exact nomatch h
    | nan => exact nomatch h

namespace Double

open Float.Model

theorem isNaN_iff_unpack (x : Float) :
    Arith.isNaN x = true ↔ x.toModel.unpack = .notANumber := by
  change x.toModel.unpack.isNaN = true ↔ _
  cases x.toModel.unpack <;> simp [UnpackedFloat.isNaN]

/-- An operation that passes on what is not a number, on both sides. -/
theorem isNaN_binary {op : UnpackedFloat → UnpackedFloat → UnpackedFloat}
    (hleft : ∀ u, op .notANumber u = .notANumber) (hright : ∀ u, op u .notANumber = .notANumber)
    {a b : Float} (h : Arith.isNaN a = true ∨ Arith.isNaN b = true) :
    Arith.isNaN (Float.ofModel (pack (op a.toModel.unpack b.toModel.unpack))) = true := by
  have hop : op a.toModel.unpack b.toModel.unpack = .notANumber := by
    rcases h with h | h
    · rw [(isNaN_iff_unpack a).1 h, hleft]
    · rw [(isNaN_iff_unpack b).1 h, hright]
  rw [isNaN_iff_unpack, hop]
  simp [pack, unpack, UnpackedFloat.pack]

end Double

instance Double.lawful : Arith.Lawful Float where
  isNaN_nan := by decide +kernel
  add := isNaN_binary (fun _ => rfl) fun u => by cases u <;> rfl
  sub := isNaN_binary (fun _ => rfl) fun u => by cases u <;> rfl
  mul := isNaN_binary (fun _ => rfl) fun u => by cases u <;> rfl
  lt := by
    intro a b h
    change ¬ decide (a.toModel.unpack.lt b.toModel.unpack = true) = true
    rw [decide_eq_true_iff]
    rcases h with h | h
    · rw [(isNaN_iff_unpack a).1 h]
      exact Bool.false_ne_true
    · rw [(isNaN_iff_unpack b).1 h]
      cases a.toModel.unpack <;> exact Bool.false_ne_true
  finite := by
    intro a h
    rw [← Bool.not_eq_true, isNaN_iff_unpack]
    intro hnan
    change a.toModel.unpack.isFinite = true at h
    rw [hnan] at h
    exact nomatch h

end BarScript
