import NullabilityCasts.ClassTable.Supertype

/-!
# Pairing of type arguments

Which parts of two types correspond: the components of two arrays, and the arguments of two
instantiations of one declaration, after lifting the first type to the declaration of the second.
Unrelated declarations and raw types have no corresponding parts.
-/

set_option autoImplicit false

namespace NullabilityCasts

namespace Ty

def zipArguments (source target : Ty) : Except ArityGap (List (Ty × Ty)) :=
  let sources := source.arguments
  let targets := target.arguments
  if sources.isEmpty || targets.isEmpty then .ok []
  else if sources.length = targets.length then .ok (sources.zip targets)
  else .error ⟨source, target, sources.length, targets.length⟩

end Ty

namespace ClassTable

/-- The corresponding parts of two types. A type that has to be lifted must have as many arguments
as its own declaration has parameters, unless it is raw. -/
def correspondingArguments (ct : ClassTable) (source target : Ty) :
    Except ArityGap (List (Ty × Ty)) :=
  match source, target with
  | .array _ _, .array _ _ => source.zipArguments target
  | .declared d _ args, .declared d' _ _ =>
    if d.id == d'.id then source.zipArguments target
    else if !args.isEmpty && args.length != d.arity then
      .error ⟨source, target, args.length, d.arity⟩
    else
      match ct.lift? source d' with
      | some lifted => lifted.zipArguments target
      | none => .ok []
  | _, _ => .ok []

end ClassTable

end NullabilityCasts
