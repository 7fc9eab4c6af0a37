import NullabilityCasts.ClassTable
import NullabilityCasts.Ty.Subst
import NullabilityCasts.Unvisited

/-!
# Lifting to supertypes

A declared type seen as an instantiation of one of its supertypes: recorded supertypes are followed
depth first in recorded order, and arguments are substituted on the way. No declaration is entered
twice, so the search ends also on cyclic hierarchies.
-/

set_option autoImplicit false

namespace NullabilityCasts

namespace Ty

/-- A supertype recorded for the declaration of `t`, instantiated by the arguments of `t`. A raw
type has raw supertypes. -/
def instantiate (t supertype : Ty) : Ty :=
  match t with
  | .declared d _ args =>
    match t.isRaw, supertype with
    | true, .declared d' _ _ => .of d' []
    | _, _ => supertype.subst (Bindings.ofParams d.params args)
  | _ => supertype

end Ty

namespace ClassTable

/-- The first instantiation of `target` among the pending types and their supertypes, where the
supertypes of a declaration in `visited` are not looked at again. -/
def findSupertype (ct : ClassTable) (target : Decl) (visited : List UInt32) : List Ty → Option Ty
  | [] => none
  | .declared d nullable args :: pending =>
    if d.id == target.id then some (.declared d nullable args)
    else if d.id ∈ visited then ct.findSupertype target visited pending
    else
      ct.findSupertype target (d.id :: visited)
        ((ct.supertypes d).map (Ty.instantiate (.declared d nullable args)) ++ pending)
  | _ :: pending => ct.findSupertype target visited pending
termination_by pending => (unvisited ct.subtypeIds visited, pending.length)
decreasing_by
  · exact Prod.Lex.right _ (by simp)
  · rename_i fresh
    by_cases leaf : ct.supertypes d = []
    · rw [leaf]
      have shrinks := @unvisited_le_of_subset ct.subtypeIds _ _ (List.subset_cons_self d.id visited)
      rcases Nat.lt_or_eq_of_le shrinks with less | equal
      · exact Prod.Lex.left _ _ less
      · rw [equal]
        exact Prod.Lex.right _ (by simp)
    · exact Prod.Lex.left _ _ (unvisited_cons_lt (mem_subtypeIds leaf) fresh)
  · exact Prod.Lex.right _ (by simp)

/-- The declared type `t` as an instantiation of `target`, if `target` is its declaration or among
the supertypes of it. -/
def lift? (ct : ClassTable) (t : Ty) (target : Decl) : Option Ty := ct.findSupertype target [] [t]

end ClassTable

end NullabilityCasts
