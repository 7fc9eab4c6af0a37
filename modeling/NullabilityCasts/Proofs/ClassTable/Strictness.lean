import NullabilityCasts.Proofs.ClassTable.Agreement

/-!
# Strict and lossy comparisons

A strict comparison is the lossy one up to the first gap. Where the lossy comparison notes no gap
both have the same answer, and else the strict one fails with the first gap noted.
-/

set_option autoImplicit false

namespace NullabilityCasts

namespace Compared

def unlessGap {α : Type} (a : α) (gaps : List ArityGap) :
    List ArityGap → Except Violation (α × List ArityGap)
  | [] => .ok (a, gaps)
  | gap :: _ => .error (.arityMismatch gap)

/-- The lossy comparison always has an answer, and the strict one has the same unless the lossy one
notes a gap. -/
def StopsAtGap {α : Type} (strict lossy : Compared α) : Prop :=
  ∀ gaps, ∃ a noted, lossy.run gaps = .ok (a, gaps ++ noted) ∧
    strict.run gaps = unlessGap a gaps noted

variable {α β : Type}

theorem stopsAtGap_pure (a : α) : StopsAtGap (pure a) (pure a) := by
  intro gaps
  refine ⟨a, [], ?_, rfl⟩
  rw [List.append_nil]
  rfl

theorem StopsAtGap.bind {strict lossy : Compared α} {strictly loosely : α → Compared β}
    (first : StopsAtGap strict lossy) (later : ∀ a, StopsAtGap (strictly a) (loosely a)) :
    StopsAtGap (strict >>= strictly) (lossy >>= loosely) := by
  intro gaps
  obtain ⟨a, noted, answered, decided⟩ := first gaps
  obtain ⟨b, more, answered', decided'⟩ := later a (gaps ++ noted)
  refine ⟨b, noted ++ more, ?_, ?_⟩
  · rw [StateT.run_bind, answered]
    exact answered'.trans (by rw [List.append_assoc])
  · rw [StateT.run_bind, decided]
    cases noted with
    | nil =>
      rw [List.append_nil] at decided'
      exact decided'
    | cons gap rest => rfl

theorem stopsAtGap_pairs (found : Except ArityGap (List (Ty × Ty))) :
    StopsAtGap (Strictness.strict.pairs found) (Strictness.lossy.pairs found) := by
  cases found with
  | ok pairs => exact stopsAtGap_pure pairs
  | error gap => exact fun gaps => ⟨[], [gap], rfl, rfl⟩

end Compared

namespace ClassTable

open Compared

variable {ct : ClassTable}

mutual

theorem stopsAtGap_argumentsDisagree (source target : Ty) :
    StopsAtGap (ct.argumentsDisagree .strict source target)
      (ct.argumentsDisagree .lossy source target) := by
  cases target with
  | declared d nullable args =>
    rw [argumentsDisagree, argumentsDisagree]
    exact (stopsAtGap_pairs _).bind fun pairs => stopsAtGap_anyDisagree _ args
  | array component nullable =>
    rw [argumentsDisagree, argumentsDisagree]
    refine (stopsAtGap_pairs _).bind fun pairs => ?_
    cases pairs with
    | nil => exact stopsAtGap_pure false
    | cons pair rest =>
      cases outer : pair.1.outerDisagrees component with
      | true =>
        simp only [outer, ↓reduceIte]
        exact stopsAtGap_pure true
      | false =>
        simp only [outer, Bool.false_eq_true, ↓reduceIte]
        exact stopsAtGap_argumentsDisagree pair.1 component
  | _ => exact stopsAtGap_pure false

theorem stopsAtGap_anyDisagree (sources targets : List Ty) :
    StopsAtGap (ct.anyDisagree .strict sources targets)
      (ct.anyDisagree .lossy sources targets) := by
  cases targets with
  | nil => cases sources <;> exact stopsAtGap_pure false
  | cons target targets =>
    cases sources with
    | nil => exact stopsAtGap_pure false
    | cons source sources =>
      rw [anyDisagree, anyDisagree]
      cases outer : source.outerDisagrees target with
      | true => exact stopsAtGap_pure true
      | false =>
        refine (stopsAtGap_argumentsDisagree source target).bind fun disagrees => ?_
        cases disagrees with
        | true => exact stopsAtGap_pure true
        | false => exact stopsAtGap_anyDisagree sources targets

end

/-- The lossy comparison can only fail before it comes to the arguments, and then the strict one
fails in the same way. -/
theorem castNeeded_strict (source target : Ty) :
    (ct.castNeeded .strict source target).run [] =
      match (ct.castNeeded .lossy source target).run [] with
      | .ok (needed, noted) => unlessGap needed [] noted
      | .error v => .error v := by
  cases denotable : ct.isDenotable target with
  | error v => rw [castNeeded_of_violation denotable, castNeeded_of_violation denotable]
  | ok d =>
    rw [castNeeded_of_denotable denotable, castNeeded_of_denotable denotable]
    cases d with
    | false => rfl
    | true =>
      cases source.isNullable && !target.isNullable with
      | true => rfl
      | false =>
        have stops : StopsAtGap (ct.argumentsDisagree .strict source target)
            (ct.argumentsDisagree .lossy source target) :=
          stopsAtGap_argumentsDisagree source target
        obtain ⟨needed, noted, answered, decided⟩ := stops []
        simp only [↓reduceIte, Bool.false_eq_true, answered, decided, List.nil_append]

end ClassTable

end NullabilityCasts
