import BarScript.Arith

/-!
# Streaming indicators

A streaming indicator takes one input per bar and gives one output. Fed with a whole series from a
fresh state it computes the indicator (`replay`); the state after a series continues it
(`replay_append`).
-/

namespace BarScript

/-- States `σ` that take inputs `ι` and give numbers `α`. -/
class Streaming (σ : Type) (ι α : outParam Type) where
  /-- The output at an input, and the state after it. -/
  next : σ → ι → α × σ

variable {σ ι α : Type} [Streaming σ ι α]

/-- The outputs at a list of inputs, and the state after them. -/
def feed (s : σ) : List ι → List α × σ
  | [] => ([], s)
  | x :: xs =>
    let (y, s) := Streaming.next s x
    let (ys, s) := feed s xs
    (y :: ys, s)

/-- The outputs at a list of inputs. -/
def replay (s : σ) (xs : List ι) : List α := (feed s xs).1

theorem feed_append (s : σ) (xs ys : List ι) :
    feed s (xs ++ ys) =
      ((feed s xs).1 ++ (feed (feed s xs).2 ys).1, (feed (feed s xs).2 ys).2) := by
  induction xs generalizing s with
  | nil => rfl
  | cons x xs ih => simp [feed, ih]

theorem replay_append (s : σ) (xs ys : List ι) :
    replay s (xs ++ ys) = replay s xs ++ replay (feed s xs).2 ys := by
  simp [replay, feed_append]

@[simp] theorem length_replay (s : σ) (xs : List ι) : (replay s xs).length = xs.length := by
  induction xs generalizing s with
  | nil => rfl
  | cons x xs ih => simpa [replay, feed] using ih _

/-- The output at a position is the one of the state after the inputs before. -/
theorem replay_getElem? (s : σ) {xs : List ι} {i : Nat} {x : ι} (h : xs[i]? = some x) :
    (replay s xs)[i]? = some (Streaming.next (feed s (xs.take i)).2 x).1 := by
  induction xs generalizing s i with
  | nil => exact nomatch h
  | cons y xs ih =>
    cases i with
    | zero =>
      obtain rfl := Option.some.inj h
      rfl
    | succ i => exact ih (Streaming.next s y).2 h

/-- The newest output, unavailable if there is none. -/
def lastValue [Arith α] (ys : List α) : α := ys.getLast?.getD Arith.nan

end BarScript
