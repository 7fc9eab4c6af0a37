import NullabilityCasts.ClassTable
import NullabilityCasts.Unvisited

/-!
# Denotable types

A type is denotable if it can be written as the target of a cast: nothing in it, and nothing that
the bounds of its wildcards and captures lead to, is a union, an intersection or an anonymous
class. The check marks a variable while it follows the variable's upper bound, and takes a marked
variable to be denotable; so cycles through upper bounds are harmless. Lower bounds that lead back
to themselves are reported.
-/

set_option autoImplicit false

namespace NullabilityCasts.ClassTable

/-- The answer of a check with the variables that are marked after it. No earlier mark gets lost. -/
abbrev Marked (seen : List UInt32) := { r : Except Violation Bool × List UInt32 // seen ⊆ r.2 }

def Marked.answer {seen : List UInt32} (a : Except Violation Bool) : Marked seen :=
  ⟨(a, seen), List.Subset.refl seen⟩

theorem subset_erase {seen marks : List UInt32} {id : UInt32} (fresh : id ∉ seen)
    (kept : seen ⊆ marks) : seen ⊆ marks.erase id := fun _ member =>
  (List.mem_erase_of_ne (ne_of_mem_of_not_mem member fresh)).mpr (kept member)

theorem unvisited_mark_lt {ct : ClassTable} {seen seen' : List UInt32} {id : UInt32} {b : Bounds}
    (found : ct.bounds? id = some b) (fresh : id ∉ seen) (kept : seen ⊆ seen') :
    unvisited ct.variableIds (id :: seen') < unvisited ct.variableIds seen :=
  Nat.lt_of_le_of_lt (unvisited_le_of_subset (List.cons_subset_cons id kept))
    (unvisited_cons_lt (mem_variableIds found) fresh)

mutual

/-- The check of one type, where `lows` are the variables whose lower bounds led here since the last
step to an upper bound. -/
def denotableFrom (ct : ClassTable) (seen lows : List UInt32) (t : Ty) : Marked seen :=
  match t with
  | .prim _ => .answer (.ok true)
  | .union _ | .inter _ => .answer (.ok false)
  | .declared d _ args =>
    if d.anonymous then .answer (.ok false) else ct.allDenotableFrom seen lows args
  | .array component _ => ct.denotableFrom seen lows component
  | .var v =>
    if !v.isOpen then .answer (.ok true)
    else if marked : v.id ∈ seen then .answer (.ok true)
    else
      match found : ct.bounds? v.id with
      | none => .answer (.error (.unboundVariable v))
      | some b =>
        match ct.lowerDenotableFrom seen lows v b found with
        | ⟨(.ok true, seen'), kept⟩ =>
          let above := ct.denotableFrom (v.id :: seen') [] b.upper
          ⟨(above.val.1, above.val.2.erase v.id),
            subset_erase marked fun _ member =>
              above.property (List.mem_cons_of_mem _ (kept member))⟩
        | stopped => stopped
termination_by (unvisited ct.variableIds seen, unvisited ct.variableIds lows, sizeOf t)
decreasing_by
  · exact Prod.Lex.right _ (Prod.Lex.right _ (by simp +arith))
  · exact Prod.Lex.right _ (Prod.Lex.right _ (by simp +arith))
  · exact Prod.Lex.right _ (Prod.Lex.right _ (by simp +arith))
  · exact Prod.Lex.left _ _ (unvisited_mark_lt found marked kept)

def lowerDenotableFrom (ct : ClassTable) (seen lows : List UInt32) (v : TyVar) (b : Bounds)
    (found : ct.bounds? v.id = some b) : Marked seen :=
  match b.lower with
  | none => .answer (.ok true)
  | some lower =>
    if looping : v.id ∈ lows then .answer (.error (.lowerBoundLoop v))
    else
      have := unvisited_cons_lt (mem_variableIds found) looping
      ct.denotableFrom seen (v.id :: lows) lower
termination_by (unvisited ct.variableIds seen, unvisited ct.variableIds lows, 0)
decreasing_by exact Prod.Lex.right _ (Prod.Lex.left _ _ this)

def allDenotableFrom (ct : ClassTable) (seen lows : List UInt32) (ts : List Ty) : Marked seen :=
  match ts with
  | [] => .answer (.ok true)
  | t :: rest =>
    match ct.denotableFrom seen lows t with
    | ⟨(.ok true, seen'), kept⟩ =>
      let later := ct.allDenotableFrom seen' lows rest
      ⟨later.val, List.Subset.trans kept later.property⟩
    | stopped => stopped
termination_by (unvisited ct.variableIds seen, unvisited ct.variableIds lows, sizeOf ts)
decreasing_by
  · exact Prod.Lex.right _ (Prod.Lex.right _ (by simp +arith))
  · rcases Nat.lt_or_eq_of_le (@unvisited_le_of_subset ct.variableIds _ _ kept) with less | equal
    · exact Prod.Lex.left _ _ less
    · rw [equal]
      exact Prod.Lex.right _ (Prod.Lex.right _ (by simp +arith))

end

/-- Whether a type is denotable when the variables in `seen` are taken to be, with the marks left
after the check. -/
def denotable (ct : ClassTable) (t : Ty) (seen : List UInt32) :
    Except Violation Bool × List UInt32 :=
  (ct.denotableFrom seen [] t).val

def isDenotable (ct : ClassTable) (t : Ty) : Except Violation Bool := (ct.denotable t []).1

end NullabilityCasts.ClassTable
