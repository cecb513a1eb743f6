import BarScript.Script.ResolveError
import BarScript.Script.SyntaxError

/-!
# Messages say which fault it is

Two texts that open differently are different (`Opens.ne`). No message opens like the one of an
unknown name or function but those two, so the message tells the fault and the name
(`SaysUnknown.unknown?_eq`).
-/

namespace BarScript

/-- The text `s` starts with `a`. -/
def Opens (a s : String) : Prop := a.toList <+: s.toList

namespace Opens

instance (a s : String) : Decidable (Opens a s) := inferInstanceAs (Decidable (_ <+: _))

variable {a b s t x : String}

theorem append (h : Opens a s) : Opens a (s ++ x) := by
  rw [Opens, String.toList_append]
  exact h.trans (List.prefix_append _ _)

/-- Texts that open differently. -/
theorem ne (ha : Opens a s) (hb : Opens b t) (hab : ¬ Opens a b) (hba : ¬ Opens b a) : s ≠ t := by
  rintro rfl
  exact (List.prefix_or_prefix_of_prefix ha hb).elim hab hba

end Opens

/-- How messages open that call nothing unknown. -/
def openings : List String :=
  ["'", "argument", "call", "cannot", "duplicate", "expected", "fill", "overlay", "plot", "strings",
    "tuple", "unexpected", "unknown c", "unknown v", "unreachable", "unterminated"]

theorem SyntaxFault.opens_message : (f : SyntaxFault) → ∃ a ∈ openings, Opens a f.message
  | expectedCharacter _ _ => ⟨"expected", by decide, .append (.append (.append (by decide)))⟩
  | expectedName _ => ⟨"expected", by decide, .append (by decide)⟩
  | reservedWord _ => ⟨"'", by decide, .append (.append (by decide))⟩
  | expectedNumber => ⟨"expected", by decide, by decide⟩
  | unterminatedText => ⟨"unterminated", by decide, by decide⟩
  | expectedExpression _ => ⟨"expected", by decide, .append (by decide)⟩
  | duplicateKey _ => ⟨"duplicate", by decide, .append (.append (by decide))⟩
  | expectedEqualsAfterTuple _ => ⟨"expected", by decide, .append (by decide)⟩
  | expectedEqualsAfter _ _ => ⟨"expected", by decide, .append (.append (.append (by decide)))⟩
  | tupleNeedsCall => ⟨"tuple", by decide, by decide⟩
  | afterStatement _ => ⟨"unexpected", by decide, .append (.append (by decide))⟩

namespace ResolveFault

/-- The name that the fault calls unknown. -/
def unknown? : ResolveFault → Option String
  | unknownName n => some n
  | unknownFunction n => some n
  | _ => none

theorem opens_message : (f : ResolveFault) →
    f.unknown?.isSome ∨ (∃ w, f = notText w) ∨ ∃ a ∈ openings, Opens a f.message
  | unknownName _ => .inl rfl
  | unknownFunction _ => .inl rfl
  | notText w => .inr (.inl ⟨w, rfl⟩)
  | textAsValue => .inr (.inr ⟨"strings", by decide, by decide⟩)
  | alreadyDeclared _ => .inr (.inr ⟨"'", by decide, .append (.append (by decide))⟩)
  | unreachable => .inr (.inr ⟨"unreachable", by decide, by decide⟩)
  | reassignsConstant _ => .inr (.inr ⟨"cannot", by decide, .append (.append (by decide))⟩)
  | reassignsPlot _ => .inr (.inr ⟨"cannot", by decide, .append (.append (by decide))⟩)
  | unknownVariable _ => .inr (.inr ⟨"unknown v", by decide, .append (.append (by decide))⟩)
  | arityMismatch _ _ =>
    .inr (.inr ⟨"call", by decide, .append (.append (.append (.append (by decide))))⟩)
  | plotAsValue _ => .inr (.inr ⟨"plot", by decide, .append (.append (by decide))⟩)
  | colorAsValue _ => .inr (.inr ⟨"'", by decide, .append (.append (by decide))⟩)
  | missingArgument _ _ =>
    .inr (.inr ⟨"'", by decide, .append (.append (.append (.append (by decide))))⟩)
  | positionalOnly _ => .inr (.inr ⟨"'", by decide, .append (.append (by decide))⟩)
  | wrongCount _ _ _ =>
    .inr (.inr ⟨"'", by decide, .append (.append (.append (.append (.append (by decide)))))⟩)
  | manyValues _ _ => .inr (.inr ⟨"'", by decide,
      .append (.append (.append (.append (.append (.append (by decide))))))⟩)
  | drawingAsValue _ => .inr (.inr ⟨"'", by decide, .append (.append (by decide))⟩)
  | duplicateArgument _ => .inr (.inr ⟨"duplicate", by decide, .append (.append (by decide))⟩)
  | noParameter _ _ =>
    .inr (.inr ⟨"'", by decide, .append (.append (.append (.append (by decide))))⟩)
  | tooManyPositional _ _ =>
    .inr (.inr ⟨"'", by decide, .append (.append (.append (.append (by decide))))⟩)
  | givenTwice _ => .inr (.inr ⟨"argument", by decide, .append (.append (by decide))⟩)
  | unknownColor _ => .inr (.inr ⟨"unknown c", by decide, .append (.append (by decide))⟩)
  | notPlot _ => .inr (.inr ⟨"'", by decide, .append (.append (by decide))⟩)
  | fillNeedsPlot => .inr (.inr ⟨"fill", by decide, by decide⟩)
  | overlayNotFlag => .inr (.inr ⟨"overlay", by decide, by decide⟩)

end ResolveFault

/-- The message says that the name `n` is unknown. -/
def SaysUnknown (message n : String) : Prop :=
  message = (ResolveFault.unknownName n).message ∨
    message = (ResolveFault.unknownFunction n).message

namespace SaysUnknown

variable {message n : String}

theorem opens (h : SaysUnknown message n) :
    Opens "unknown n" message ∨ Opens "unknown f" message := by
  rcases h with rfl | rfl
  · exact .inl (.append (.append (by decide)))
  · exact .inr (.append (.append (by decide)))

/-- It ends with a quote. -/
theorem ends (h : SaysUnknown message n) : message.toList.getLast? = some '\'' := by
  have ends (s : String) : (s ++ "'").toList.getLast? = some '\'' := by
    simp
  rcases h with rfl | rfl <;> exact ends _

theorem not_opens (h : SaysUnknown message n) : ¬ ∃ a ∈ openings, Opens a message := by
  rintro ⟨a, ha, hopens⟩
  rcases h.opens with hn | hf
  · exact hopens.ne hn ((by decide : ∀ a ∈ openings, ¬ Opens a "unknown n") a ha)
      ((by decide : ∀ a ∈ openings, ¬ Opens "unknown n" a) a ha) rfl
  · exact hopens.ne hf ((by decide : ∀ a ∈ openings, ¬ Opens a "unknown f") a ha)
      ((by decide : ∀ a ∈ openings, ¬ Opens "unknown f" a) a ha) rfl

/-- **The message of an unknown name or function** is that of no other fault. -/
theorem unknown?_eq {f : ResolveFault} (h : SaysUnknown f.message n) : f.unknown? = some n := by
  have quoted {l w : String} (h : l ++ w ++ "'" = l ++ n ++ "'") : w = n :=
    (String.append_right_inj l).1 ((String.append_left_inj _).1 h)
  rcases f.opens_message with hsome | ⟨w, rfl⟩ | hopens
  · cases f with
    | unknownName w =>
      rcases h with h | h
      · exact congrArg some (quoted h)
      · exact absurd h (Opens.ne (a := "unknown n") (b := "unknown f")
          (.append (.append (by decide))) (.append (.append (by decide))) (by decide) (by decide))
    | unknownFunction w =>
      rcases h with h | h
      · exact absurd h (Opens.ne (a := "unknown f") (b := "unknown n")
          (.append (.append (by decide))) (.append (.append (by decide))) (by decide) (by decide))
      · exact congrArg some (quoted h)
    | _ => cases hsome
  · have hends : (w ++ " must be a string literal").toList.getLast? = some 'l' := by simp
    exact nomatch hends.symm.trans h.ends
  · exact absurd hopens h.not_opens

end SaysUnknown

end BarScript
