import NullabilityCasts.Ty

/-!
# Substitution of type variables

Bindings map variable ids to types. A nullable use of a bound variable becomes the nullable form of
its replacement.
-/

set_option autoImplicit false

namespace NullabilityCasts

/-- Replacements by variable id. An earlier entry hides a later one of the same id. -/
abbrev Bindings := List (UInt32 × Ty)

namespace Bindings

def get? (b : Bindings) (id : UInt32) : Option Ty := b.lookup id

/-- Bindings from pairs of which a later one replaces an earlier one of the same id. -/
def ofPairs (pairs : List (UInt32 × Ty)) : Bindings := pairs.reverse

/-- Binds a declaration's parameters to arguments in order; what is left over on either side is not
bound. -/
def ofParams (params : List TyVar) (args : List Ty) : Bindings :=
  ofPairs ((params.map TyVar.id).zip args)

end Bindings

namespace Ty

mutual

def subst (b : Bindings) : Ty → Ty
  | .prim p => .prim p
  | .declared d n args => .declared d n (substAll b args)
  | .array c n => .array (subst b c) n
  | .var v =>
    match b.get? v.id with
    | some t => if v.nullable then t.toNullable else t
    | none => .var v
  | .union ts => .union (substAll b ts)
  | .inter ts => .inter (substAll b ts)

def substAll (b : Bindings) : List Ty → List Ty
  | [] => []
  | t :: rest => t.subst b :: substAll b rest

end

theorem substAll_eq (b : Bindings) (ts : List Ty) : substAll b ts = ts.map (subst b) := by
  induction ts with
  | nil => simp [substAll]
  | cons t rest ih => simp [substAll, ih]

end Ty

end NullabilityCasts
