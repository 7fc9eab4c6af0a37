import Mathlib
import NullabilityCasts.Proofs.CastPass.Rule
import NullabilityCasts.Proofs.Conversion.CastSites

/-!
# Placement of casts

A successful run casts at exactly the slots that need it. Every decision is read off the unit as it
is given, so none hangs on a cast that is made elsewhere.
-/

set_option autoImplicit false

namespace NullabilityCasts

namespace Slot

def holdsOperand (s : Slot) : Bool := s.kind == .castOperand

theorem holdsOperand_withActual (s : Slot) (actual : Ty) :
    ({ s with actual := actual } : Slot).holdsOperand = s.holdsOperand := rfl

end Slot

/-- Every cast that is made adds one operand to those that were there. -/
theorem Site.countP_holdsOperand_afterCasts (cast : Slot → Option Ty) (sites : List Site) :
    ((sites.flatMap (afterCasts cast)).filterMap slot?).countP Slot.holdsOperand
      = (sites.filterMap slot?).countP Slot.holdsOperand
        + (sites.filterMap slot?).countP fun s => (cast s).isSome := by
  induction sites with
  | nil => rfl
  | cons site rest ih =>
    rw [List.flatMap_cons, List.filterMap_append, List.countP_append, ih]
    cases site with
    | violation v => simp [afterCasts, slot?, List.filterMap_cons]
    | slot s =>
      cases chosen : cast s with
      | none =>
        simp only [afterCasts, chosen, slot?, List.filterMap_cons, List.filterMap_nil,
          List.countP_cons, List.countP_nil, Option.isSome_none, Bool.false_eq_true, ↓reduceIte]
        omega
      | some target =>
        have operand : (⟨.typed .castOperand target, s.actual⟩ : Slot).holdsOperand = true := rfl
        cases inside : s.holdsOperand <;>
          simp only [afterCasts, chosen, typed, slot?, List.filterMap_cons, List.filterMap_nil,
            List.countP_cons, List.countP_nil, Option.isSome_some, operand, inside,
            Slot.holdsOperand_withActual, Bool.false_eq_true, ↓reduceIte] <;>
          omega

namespace CastPass

variable {strictness : Strictness} {u : SourceUnit}

theorem decision_of_takesCast {ct : ClassTable} {s : Slot} {decision : Option Ty}
    (takes : s.kind.takesCast = true) (decided : (rule ct strictness).atSlot s = .ok decision) :
    ∃ inferred target needed gaps, s.inferred = .ok inferred ∧ ct.project inferred = .ok target ∧
      (ct.castNeeded strictness s.actual target).run [] = .ok (needed, gaps) ∧
      decision = if needed then some target else none := by
  cases expects : s.inferred with
  | error v =>
    rw [CastRule.atSlot, expects] at decided
    cases decided
  | ok inferred =>
    rw [CastRule.atSlot_of_inferred expects] at decided
    obtain ⟨target, needed, gaps, projected, answered, choice⟩ := rule_ok_cases takes decided
    exact ⟨inferred, target, needed, gaps, rfl, projected, answered, choice⟩

theorem cast_of_keeps {ct : ClassTable} {s : Slot} (keeps : s.kind.takesCast = false) :
    cast ct strictness s = none := by
  cases expects : s.inferred with
  | error v =>
    rw [cast, CastRule.cast, CastRule.atSlot, expects]
    rfl
  | ok inferred =>
    apply CastRule.cast_of_atSlot
    rw [CastRule.atSlot_of_inferred expects]
    exact rule_keeps keeps inferred s.actual

theorem cast_eq_some_iff {ct : ClassTable} {s : Slot} {target : Ty} :
    cast ct strictness s = some target ↔ s.kind.takesCast = true ∧ ∃ inferred gaps,
      s.inferred = .ok inferred ∧ ct.project inferred = .ok target ∧
        (ct.castNeeded strictness s.actual target).run [] = .ok (true, gaps) := by
  constructor
  · intro chosen
    have takes : s.kind.takesCast = true := by
      cases kind : s.kind.takesCast with
      | true => rfl
      | false =>
        rw [cast_of_keeps kind] at chosen
        cases chosen
    cases decided : (rule ct strictness).atSlot s with
    | error v =>
      rw [cast, CastRule.cast, decided] at chosen
      cases chosen
    | ok decision =>
      have same : decision = some target :=
        (CastRule.cast_of_atSlot decided).symm.trans chosen
      obtain ⟨inferred, target', needed, gaps, expects, projected, answered, choice⟩ :=
        decision_of_takesCast takes decided
      rw [same] at choice
      cases needed with
      | false => cases choice
      | true =>
        obtain rfl : target = target' := Option.some.inj choice
        exact ⟨takes, inferred, gaps, expects, projected, answered⟩
  · rintro ⟨takes, inferred, gaps, expects, projected, needed⟩
    apply CastRule.cast_of_atSlot
    rw [CastRule.atSlot_of_inferred expects, rule_of_project takes projected, needed]
    rfl

theorem atSlot_of_succeeds (succeeds : (run strictness u).failure = none) {s : Slot}
    (member : s ∈ u.slots) :
    (rule u.types.table strictness).atSlot s = .ok (cast u.types.table strictness s) := by
  obtain ⟨decision, decided⟩ := run_succeeds_iff.mp succeeds _ (SourceUnit.mem_slots.mp member)
  have chosen : cast u.types.table strictness s = decision := CastRule.cast_of_atSlot decided
  rw [chosen]
  exact decided

/-- A run that makes the casts needed at the slots of `u`, and no others, and logs how many. -/
structure Exact (strictness : Strictness) (u : SourceUnit) (r : PassRun) : Prop where
  succeeds : r.failure = none
  unit : r.unit = u.withCasts (cast u.types.table strictness)
  counted : ∃ log, r.log = log ++
    [.castsCounted name (u.slots.countP fun s => (cast u.types.table strictness s).isSome) u.path]
  /-- The casts of the unit are those that it had and those that were counted. -/
  operands : r.unit.slots.countP Slot.holdsOperand = u.slots.countP Slot.holdsOperand
    + u.slots.countP fun s => (cast u.types.table strictness s).isSome
  needed : ∀ s ∈ u.slots, s.kind.takesCast = true → ∃ inferred target needed gaps,
    s.inferred = .ok inferred ∧ u.types.table.project inferred = .ok target ∧
      (u.types.table.castNeeded strictness s.actual target).run [] = .ok (needed, gaps) ∧
      cast u.types.table strictness s = if needed then some target else none
  kept : ∀ s ∈ u.slots, s.kind.takesCast = false → cast u.types.table strictness s = none

theorem run_exact (succeeds : (run strictness u).failure = none) :
    Exact strictness u (run strictness u) := by
  obtain ⟨log, ran⟩ := run_of_succeeds succeeds
  have unit : (run strictness u).unit = u.withCasts (cast u.types.table strictness) := by
    rw [ran]
  refine ⟨succeeds, unit, ⟨log, by rw [ran]⟩, ?_, ?_, ?_⟩
  · rw [unit, SourceUnit.slots, SourceUnit.sites_withCasts]
    exact Site.countP_holdsOperand_afterCasts _ u.sites
  · intro s member takes
    exact decision_of_takesCast takes (atSlot_of_succeeds succeeds member)
  · intro s _ keeps
    exact cast_of_keeps keeps

end CastPass

namespace Sample

def string : Decl := ⟨1, "java.lang.String", false, []⟩

def str (nullable : Bool) : Ty := .declared string nullable []

/-- A table with two captures, the first bounded by an array of nullable strings and the second by
strings. -/
def table : ClassTable :=
  .ofLists [ClassTable.object, string, ⟨2, "Main", false, []⟩]
    [(0, ⟨.array (str true) false, none⟩), (1, ⟨str false, none⟩)] []

def unit (members : List Member) : SourceUnit :=
  ⟨"Main.java", ⟨0, table⟩, [⟨⟨2, "Main", false, []⟩, members⟩]⟩

def use (name : String) (ty : Ty) : Expr := .localVar (Expr.fresh ty) ⟨name⟩

def method (name : String) (params : List Ty) (result : Ty) : MethodSig :=
  ⟨⟨name⟩, params, result, false, false, true⟩

def greeter : SourceUnit := unit
  [.field ⟨⟨"name"⟩, str false, false⟩ (some (.conditional (Expr.fresh (str false))
      (use "known" Ty.boolean) (use "alias" (str true)) (use "other" (str false)))),
    .method (method "greet" [] (str false)) [] (some [.ret .null (some
      (Expr.invoke none (method "lookup" [str false] (str true)) [use "alias" (str true)]))])]

end Sample

theorem CastPass.run_exact_greeter : (run .strict Sample.greeter).failure = none ∧
    (Sample.greeter.slots.countP fun s => (cast Sample.table .strict s).isSome) = 3 ∧
    Exact .strict Sample.greeter (run .strict Sample.greeter) := by
  have succeeds : (run .strict Sample.greeter).failure = none := by cbv
  exact ⟨succeeds, by cbv, run_exact succeeds⟩

end NullabilityCasts
