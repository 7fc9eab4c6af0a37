/-!
# Unvisited ids

A search that never enters an id twice ends because the ids of its table that it has not yet entered
become fewer.
-/

set_option autoImplicit false

namespace NullabilityCasts

def unvisited (ids visited : List UInt32) : Nat := ids.countP fun id => decide (id ∉ visited)

theorem unvisited_le_of_subset {ids visited visited' : List UInt32} (h : visited ⊆ visited') :
    unvisited ids visited' ≤ unvisited ids visited := by
  apply List.countP_mono_left
  intro id _ fresh
  exact decide_eq_true fun old => of_decide_eq_true fresh (h old)

theorem unvisited_cons_lt {ids visited : List UInt32} {id : UInt32} (known : id ∈ ids)
    (fresh : id ∉ visited) : unvisited ids (id :: visited) < unvisited ids visited := by
  induction ids with
  | nil => simp at known
  | cons first rest ih =>
    have shrinks : unvisited rest (id :: visited) ≤ unvisited rest visited :=
      unvisited_le_of_subset (List.subset_cons_self id visited)
    unfold unvisited at shrinks ih ⊢
    rw [List.countP_cons, List.countP_cons]
    by_cases same : first = id
    · subst first
      simp only [List.mem_cons, true_or, not_true_eq_false, decide_false, Bool.false_eq_true,
        ↓reduceIte, fresh, not_false_eq_true, decide_true] at shrinks ⊢
      omega
    · have later := ih ((List.mem_cons.mp known).resolve_left (Ne.symm same))
      have unchanged : decide (first ∉ id :: visited) = decide (first ∉ visited) := by
        simp [same]
      rw [unchanged]
      omega

end NullabilityCasts
