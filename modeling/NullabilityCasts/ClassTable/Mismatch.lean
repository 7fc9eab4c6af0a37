import NullabilityCasts.ClassTable.Denotable
import NullabilityCasts.ClassTable.Pairing

/-!
# Nullability mismatches

When a value of one type can be used as another only through a cast: the source admits null where
the target does not, or their arguments disagree on nullability at some depth. Only a denotable
target gets a cast.
-/

set_option autoImplicit false

namespace NullabilityCasts

/-- What happens when two types that should correspond differ in their number of arguments. -/
inductive Strictness where
  /-- The comparison fails. -/
  | strict
  /-- The gap is noted and the arguments are not compared. -/
  | lossy
  deriving DecidableEq, Repr

abbrev Compared (α : Type) := StateT (List ArityGap) (Except Violation) α

def Strictness.pairs (strictness : Strictness) (found : Except ArityGap (List (Ty × Ty))) :
    Compared (List (Ty × Ty)) :=
  match found, strictness with
  | .ok pairs, _ => pure pairs
  | .error gap, .strict => throw (.arityMismatch gap)
  | .error gap, .lossy => do
    modify (· ++ [gap])
    pure []

/-- Whether two arguments disagree at their outermost position. An open source against a target that
is not open also counts, because the target may have been inferred for a wildcard. -/
def Ty.outerDisagrees (source target : Ty) : Bool :=
  (source.isOpen && !target.isOpen) || source.isNullable != target.isNullable

namespace ClassTable

mutual

def argumentsDisagree (ct : ClassTable) (strictness : Strictness) (source target : Ty) :
    Compared Bool :=
  match target with
  | .declared d nullable args => do
    let pairs ← strictness.pairs (ct.correspondingArguments source (.declared d nullable args))
    ct.anyDisagree strictness (pairs.map (·.1)) args
  | .array component nullable => do
    let pairs ← strictness.pairs (ct.correspondingArguments source (.array component nullable))
    match pairs with
    | (part, _) :: _ =>
      if part.outerDisagrees component then pure true
      else ct.argumentsDisagree strictness part component
    | [] => pure false
  | _ => pure false

def anyDisagree (ct : ClassTable) (strictness : Strictness) (sources targets : List Ty) :
    Compared Bool :=
  match sources, targets with
  | source :: sources, target :: targets => do
    if source.outerDisagrees target then pure true
    else if ← ct.argumentsDisagree strictness source target then pure true
    else ct.anyDisagree strictness sources targets
  | _, _ => pure false

end

def argumentDisagrees (ct : ClassTable) (strictness : Strictness) (source target : Ty) :
    Compared Bool :=
  if source.outerDisagrees target then pure true else ct.argumentsDisagree strictness source target

def castNeeded (ct : ClassTable) (strictness : Strictness) (source target : Ty) :
    Compared Bool := do
  if ← ct.isDenotable target then
    if source.isNullable && !target.isNullable then pure true
    else ct.argumentsDisagree strictness source target
  else pure false

end ClassTable

end NullabilityCasts
