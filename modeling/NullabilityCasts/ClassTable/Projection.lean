import NullabilityCasts.ClassTable
import NullabilityCasts.Unvisited

/-!
# Projection of open variables

A wildcard or capture is replaced by the bound that may be written in its place: its lower bound
when it has one, its upper bound otherwise, and so on while the bound is itself open.
-/

set_option autoImplicit false

namespace NullabilityCasts

def Bounds.preferred (b : Bounds) : Ty := b.lower.getD b.upper

namespace ClassTable

def projectFrom (ct : ClassTable) (visited : List UInt32) : Ty → Except Violation Ty
  | .var v =>
    if !v.isOpen then .ok (.var v)
    else if v.id ∈ visited then .error (.boundLoop v)
    else
      match _found : ct.bounds? v.id with
      | none => .error (.unboundVariable v)
      | some b => ct.projectFrom (v.id :: visited) b.preferred
  | t => .ok t
termination_by unvisited ct.variableIds visited
decreasing_by
  rename_i fresh
  exact unvisited_cons_lt (mem_variableIds _found) fresh

def project (ct : ClassTable) (t : Ty) : Except Violation Ty := ct.projectFrom [] t

end ClassTable

end NullabilityCasts
