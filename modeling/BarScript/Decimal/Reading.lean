import BarScript.Decimal.Literal

/-!
# Whole texts that are numbers

Unlike `Literal.front?`, which takes a number off the front of a text, these readers want a text
that is a number and nothing else: a decimal number or one of the words for the other values
(`readNumber`), an integer within bounds (`readInteger?`), or a count (`readCount?`).
-/

namespace BarScript

/-- Why a text is not a number. -/
inductive NumberFault where
  | empty | malformed
  deriving DecidableEq, Repr

/-- The fault in words. -/
def NumberFault.message : NumberFault → String
  | empty => "cannot parse float from empty string"
  | malformed => "invalid float literal"

/-- What a text can say about a number. -/
inductive Reading where
  | unavailable
  | infinite (negative : Bool)
  | finite (l : Literal)
  deriving DecidableEq, Repr

/-- The number of a reading. -/
def Reading.value {α : Type} [Arith α] : Reading → α
  | unavailable => Arith.nan
  | infinite negative => let x : α := 1 / 0; if negative then -x else x
  | finite l => l.value

/-- A sign and what follows it. -/
def splitSign : List Char → Bool × List Char
  | '-' :: cs => (true, cs)
  | '+' :: cs => (false, cs)
  | cs => (false, cs)

/-- The reading of a text without a sign. -/
def readMagnitude? (negative : Bool) (cs : List Char) : Option Reading :=
  let word := String.ofList (cs.map Char.toLower)
  if word = "nan" then some .unavailable
  else if word = "inf" ∨ word = "infinity" then some (.infinite negative)
  else
    match Literal.front? cs with
    | some (l, n) => if n = cs.length then some (.finite { l with negative := negative }) else none
    | none => none

/-- The number that a text is. -/
def readNumber (text : String) : Except NumberFault Reading :=
  if text.isEmpty then .error .empty
  else
    let (negative, cs) := splitSign text.toList
    match readMagnitude? negative cs with
    | some r => .ok r
    | none => .error .malformed

/-- The value of a text that holds decimal digits only, and at least one. -/
def readDigits? (cs : List Char) : Option Nat :=
  if cs.isEmpty || !cs.all Char.isDigit then none else some (Literal.digitsValue cs)

/-- The integer that a text is, if it fits into 64 bits. -/
def readInteger? (text : String) : Option Int :=
  let (negative, cs) := splitSign text.toList
  match readDigits? cs with
  | some n =>
    let i : Int := if negative then -n else n
    if -(twoTo 63 : Int) ≤ i ∧ i < (twoTo 63 : Int) then some i else none
  | none => none

/-- The count that a text is, if it is below `bound`; a plus sign may stand first. -/
def readCount? (bound : Nat) (text : String) : Option Nat :=
  let cs := match text.toList with
    | '+' :: cs => cs
    | cs => cs
  (readDigits? cs).filter fun n => decide (n < bound)

end BarScript
