import NullabilityCasts.Proofs.ClassTable.Denotability
import NullabilityCasts.Proofs.ClassTable.Strictness

/-!
# Lower bounds that lead nowhere back

The check for denotable types goes through a lower bound without a mark. It ends if no variable
leads back to itself through lower bounds; loops through upper bounds do no harm.
-/

set_option autoImplicit false

namespace NullabilityCasts

namespace ClassTable

variable {ct : ClassTable}

def LowerAcyclic (ct : ClassTable) : Prop := ∀ id, ¬ Relation.TransGen ct.LowerLeads id id

/-- Lower bounds that only lead down in some ranking never lead back. -/
theorem lowerAcyclic_of_rank (rank : UInt32 → Nat)
    (descends : ∀ id id', ct.LowerLeads id id' → rank id' < rank id) : ct.LowerAcyclic := by
  have below {id id' : UInt32} (leads : Relation.TransGen ct.LowerLeads id id') :
      rank id' < rank id := by
    induction leads with
    | single step => exact descends _ _ step
    | tail _ step ih => exact Nat.lt_trans (descends _ _ step) ih
  intro id loop
  exact Nat.lt_irrefl _ (below loop)

def LoopFree {α : Type} (answer : Except Violation α) : Prop :=
  ∀ v, answer ≠ .error (.lowerBoundLoop v)

theorem loopFree_ok {α : Type} (a : α) : LoopFree (.ok a) := fun _ same => by cases same

theorem loopFree_error_iff {α : Type} {v : Violation} :
    LoopFree (.error v : Except Violation α) ↔ ∀ w, v ≠ .lowerBoundLoop w :=
  ⟨fun free w same => free w (congrArg _ same), fun other w same => other w (Except.error.inj same)⟩

theorem loopFree_denotable (acyclic : ct.LowerAcyclic) (t : Ty) (seen : List UInt32) :
    LoopFree (ct.denotable t seen).1 := by
  intro v looping
  obtain ⟨w, _, _, _, ⟨same, _⟩ | ⟨_, loop⟩⟩ :=
    (checked_denotableFrom ct seen [] t).stops _ looping (LeadTo.nil _)
  · cases same
  · have fewer : ct.LowerLeadsOutside seen ≤ ct.LowerLeads := fun _ _ leads => leads.2
    exact acyclic w.id (Relation.TransGen.mono fewer w.id w.id loop)

theorem loopFree_isDenotable (acyclic : ct.LowerAcyclic) (t : Ty) : LoopFree (ct.isDenotable t) :=
  loopFree_denotable acyclic t []

theorem loopFree_projectFrom (visited : List UInt32) (t : Ty) :
    LoopFree (ct.projectFrom visited t) := by
  induction visited, t using projectFrom.induct ct with
  | case1 visited v closed =>
    rw [projectFrom, if_pos closed]
    exact loopFree_ok _
  | case2 visited v isOpen again =>
    rw [projectFrom, if_neg isOpen, if_pos again]
    exact loopFree_error_iff.mpr fun _ => Violation.noConfusion
  | case3 visited v isOpen fresh missing =>
    rw [projectFrom, if_neg isOpen, if_neg fresh]
    split
    · exact loopFree_error_iff.mpr fun _ => Violation.noConfusion
    · rename_i b found
      rw [missing] at found
      cases found
  | case4 visited v isOpen fresh b found ih =>
    rw [projectFrom, if_neg isOpen, if_neg fresh]
    split
    · exact loopFree_error_iff.mpr fun _ => Violation.noConfusion
    · rename_i b' found'
      obtain rfl : b = b' := Option.some.inj (found.symm.trans found')
      exact ih
  | case5 visited t closed =>
    rw [projectFrom]
    · exact loopFree_ok t
    · exact closed

theorem loopFree_argumentsDisagree (strictness : Strictness) (source target : Ty)
    (gaps : List ArityGap) :
    LoopFree ((ct.argumentsDisagree strictness source target).run gaps) := by
  have stops : Compared.StopsAtGap (ct.argumentsDisagree .strict source target)
      (ct.argumentsDisagree .lossy source target) := stopsAtGap_argumentsDisagree source target
  obtain ⟨needed, noted, answered, decided⟩ := stops gaps
  cases strictness with
  | lossy =>
    rw [answered]
    exact loopFree_ok _
  | strict =>
    rw [decided]
    cases noted with
    | nil => exact loopFree_ok _
    | cons gap rest => exact loopFree_error_iff.mpr fun _ => Violation.noConfusion

theorem loopFree_castNeeded (acyclic : ct.LowerAcyclic) (strictness : Strictness)
    (source target : Ty) (gaps : List ArityGap) :
    LoopFree ((ct.castNeeded strictness source target).run gaps) := by
  have denotable : LoopFree (ct.isDenotable target) := loopFree_isDenotable acyclic target
  cases decided : ct.isDenotable target with
  | error v =>
    rw [decided] at denotable
    rw [castNeeded_of_violation decided]
    exact loopFree_error_iff.mpr (loopFree_error_iff.mp denotable)
  | ok d =>
    rw [castNeeded_of_denotable decided]
    split
    · split
      · exact loopFree_ok _
      · exact loopFree_argumentsDisagree strictness source target gaps
    · exact loopFree_ok _

end ClassTable

end NullabilityCasts
