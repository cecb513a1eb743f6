import BarScript.Script.ResolveError

/-!
# Arguments of a call

`CallOf.bind` matches the arguments of a call with parameter names: positional arguments in their
order, the others by name. A call that allows it may have further arguments by name.
-/

namespace BarScript

/-- The arguments of a call by parameter, and the further ones. -/
structure BoundArgs (ε : Type) where
  /-- One entry per parameter. -/
  slots : List (Option ε)
  extra : List (String × ε)

namespace BoundArgs

variable {ε : Type}

/-- The argument of parameter number `i`. -/
def slot (b : BoundArgs ε) (i : Nat) : Option ε := (b.slots[i]?).join

end BoundArgs

/-- Where an argument goes. -/
inductive ArgPlace where
  | slot (i : Nat)
  | extra (name : String)
  deriving DecidableEq, Repr

namespace CallOf

variable {ε : Type}

/-- Where an argument goes when `next` positional ones came before it. -/
def place (c : CallOf ε) (params : List String) (allowExtra : Bool) (next : Nat) (a : Arg ε) :
    Except ResolveError ArgPlace :=
  match a.name with
  | some name =>
    match params.idxOf? name with
    | some i => .ok (.slot i)
    | none =>
      if allowExtra then .ok (.extra name)
      else .error ⟨a.position, .noParameter c.name name⟩
  | none =>
    if next < params.length then .ok (.slot next)
    else .error ⟨a.position, .tooManyPositional c.name params.length⟩

/-- Puts an argument where it goes. -/
def put (params : List String) (a : Arg ε) (b : BoundArgs ε) :
    ArgPlace → Except ResolveError (BoundArgs ε)
  | .extra name =>
    if b.extra.any (·.1 == name) then .error ⟨a.position, .duplicateArgument name⟩
    else .ok { b with extra := b.extra ++ [(name, a.value)] }
  | .slot i =>
    if (b.slot i).isSome then .error ⟨a.position, .givenTwice (params.getD i "")⟩
    else .ok { b with slots := b.slots.set i (some a.value) }

/-- Matches arguments with parameters, after `next` positional ones. -/
def bindFrom (c : CallOf ε) (params : List String) (allowExtra : Bool) :
    List (Arg ε) → Nat → BoundArgs ε → Except ResolveError (BoundArgs ε)
  | [], _, b => .ok b
  | a :: as, next, b => do
    let p ← c.place params allowExtra next a
    let b ← put params a b p
    bindFrom c params allowExtra as (if a.name.isNone then next + 1 else next) b

/-- Matches the arguments of a call with parameters. -/
def bind (c : CallOf ε) (params : List String) (allowExtra : Bool) :
    Except ResolveError (BoundArgs ε) :=
  c.bindFrom params allowExtra c.args 0 ⟨params.map fun _ => none, []⟩

/-- The call with arguments that remember where they come from. -/
def attach (c : CallOf ε) : CallOf { e : ε // ∃ a ∈ c.args, a.value = e } :=
  ⟨c.name, c.args.attach.map fun a => ⟨a.1.name, ⟨a.1.value, a.1, a.2, rfl⟩, a.1.position⟩,
    c.position⟩

end CallOf

/-- An argument of a call is smaller than the call. -/
theorem sizeOf_arg_lt {c : Call} {e : Expr} (h : ∃ a ∈ c.args, a.value = e) :
    sizeOf e < sizeOf c := by
  obtain ⟨a, ha, rfl⟩ := h
  have h₁ := List.sizeOf_lt_of_mem ha
  cases c with
  | mk name args position =>
    cases a with
    | mk argName value argPosition =>
      simp at h₁ ⊢
      omega

end BarScript
