import NullabilityCasts.Pipeline.Normalization

/-!
# Success of the normalization stage

The stage reports success by the severity of what was raised. So its report can be relied on if no
pass fails, or if one of the failures that it takes notice of is more than a diagnostic below an
error.
-/

set_option autoImplicit false

namespace NullabilityCasts

/-- Every failure but that of a pass which reports less than an error. -/
def Error.isFatal : Error → Bool
  | .diagnostic d => d.isError
  | _ => true

theorem Pass.isError_failure (pass path : String) (e : Error) :
    (Pass.failure pass path e).isError = e.isFatal := by
  cases e <;> rfl

def Pass.outcome (pass : Pass) (u : SourceUnit) : Except Error SourceUnit :=
  match (pass.run u).failure with
  | some e => .error e
  | none => .ok (pass.run u).unit

namespace Normalization

def applied (passes : List Pass) (u : SourceUnit) : Except Error SourceUnit :=
  passes.foldlM (fun u pass => pass.outcome u) u

theorem applied_cons_ok {pass : Pass} {u : SourceUnit} (passes : List Pass)
    (succeeds : (pass.run u).failure = none) :
    applied (pass :: passes) u = applied passes (pass.run u).unit := by
  rw [applied, List.foldlM_cons, Pass.outcome, succeeds]
  rfl

theorem applied_cons_error {pass : Pass} {u : SourceUnit} {e : Error} (passes : List Pass)
    (fails : (pass.run u).failure = some e) : applied (pass :: passes) u = .error e := by
  rw [applied, List.foldlM_cons, Pass.outcome, fails]
  rfl

def failure? (passes : List Pass) (u : SourceUnit) : Option Error :=
  match applied passes u with
  | .ok _ => none
  | .error e => some e

def failures (passes : List Pass) (units : List SourceUnit) : List Error :=
  units.filterMap (failure? passes)

/-- A serial run takes notice of the first failure only. -/
def noticed (parallel : Bool) (errors : List Error) : List Error :=
  if parallel then errors else errors.take 1

theorem runPasses_applied (passes : List Pass) (u : SourceUnit) :
    match applied passes u with
    | .ok u' => (runPasses passes u).failure = none ∧ (runPasses passes u).unit = u'
    | .error e => ∃ d, (runPasses passes u).failure = some d ∧ d.isError = e.isFatal := by
  induction passes generalizing u with
  | nil => exact ⟨rfl, rfl⟩
  | cons pass rest ih =>
    cases first : (pass.run u).failure with
    | some e =>
      rw [applied_cons_error rest first]
      refine ⟨Pass.failure pass.name (pass.run u).unit.path e, ?_, Pass.isError_failure _ _ e⟩
      simp only [runPasses, first]
    | none =>
      have later : (runPasses (pass :: rest) u).failure
          = (runPasses rest (pass.run u).unit).failure := by
        simp only [runPasses, first]
      have left : (runPasses (pass :: rest) u).unit
          = (runPasses rest (pass.run u).unit).unit := by
        simp only [runPasses, first]
      rw [applied_cons_ok rest first, later, left]
      exact ih (pass.run u).unit

theorem map_isError_failure (passes : List Pass) (u : SourceUnit) :
    (runPasses passes u).failure.map Diagnostic.isError
      = (failure? passes u).map Error.isFatal := by
  have outcome := runPasses_applied passes u
  rw [failure?]
  cases answer : applied passes u with
  | ok u' =>
    rw [answer] at outcome
    rw [outcome.1]
    rfl
  | error e =>
    rw [answer] at outcome
    obtain ⟨d, failed, severity⟩ := outcome
    rw [failed, Option.map_some, severity]
    rfl

theorem applied_of_failure?_eq_none {passes : List Pass} {u : SourceUnit}
    (succeeds : failure? passes u = none) :
    applied passes u = .ok (runPasses passes u).unit := by
  have outcome := runPasses_applied passes u
  cases answer : applied passes u with
  | ok u' =>
    rw [answer] at outcome
    rw [outcome.2]
  | error e =>
    rw [failure?, answer] at succeeds
    cases succeeds

theorem applied_of_failure?_eq_some {passes : List Pass} {u : SourceUnit} {e : Error}
    (fails : failure? passes u = some e) : applied passes u = .error e := by
  cases answer : applied passes u with
  | ok u' =>
    rw [failure?, answer] at fails
    cases fails
  | error e' =>
    rw [failure?, answer] at fails
    rw [Option.some.inj fails]

theorem mapM_applied (passes : List Pass) (units : List SourceUnit) :
    units.mapM (applied passes) = match failures passes units with
      | [] => .ok (units.map fun u => (runPasses passes u).unit)
      | e :: _ => .error e := by
  induction units with
  | nil => rfl
  | cons u rest ih =>
    rw [List.mapM_cons, failures, List.filterMap_cons]
    cases first : failure? passes u with
    | some e =>
      rw [applied_of_failure?_eq_some first]
      rfl
    | none =>
      rw [applied_of_failure?_eq_none first, ih]
      change _ = match failures passes rest with
        | [] => Except.ok ((runPasses passes u).unit :: rest.map fun u => (runPasses passes u).unit)
        | e :: _ => Except.error e
      cases failures passes rest <;> rfl

theorem isError_raised_serial (passes : List Pass) (units : List SourceUnit) :
    (runSerial passes units).raised.map Diagnostic.isError
      = ((failures passes units).take 1).map Error.isFatal := by
  induction units with
  | nil => rfl
  | cons u rest ih =>
    have severity := map_isError_failure passes u
    rw [failures, List.filterMap_cons]
    cases expected : failure? passes u with
    | none =>
      rw [expected, Option.map_none, Option.map_eq_none_iff] at severity
      simp only [runSerial, severity]
      exact ih
    | some e =>
      rw [expected, Option.map_some, Option.map_eq_some_iff] at severity
      obtain ⟨d, failed, same⟩ := severity
      -- The units after this one are left alone, so nothing else is raised.
      simp only [runSerial, failed, List.map_cons, List.map_nil, same, List.take_succ_cons,
        List.take_zero]

theorem units_serial {passes : List Pass} {units : List SourceUnit}
    (succeeds : failures passes units = []) :
    (runSerial passes units).units = units.map fun u => (runPasses passes u).unit := by
  induction units with
  | nil => rfl
  | cons u rest ih =>
    rw [failures, List.filterMap_eq_nil_iff, List.forall_mem_cons] at succeeds
    have severity := map_isError_failure passes u
    rw [succeeds.1, Option.map_none, Option.map_eq_none_iff] at severity
    simp only [runSerial, severity, List.map_cons]
    rw [ih (List.filterMap_eq_nil_iff.mpr succeeds.2)]

theorem filterMap_getElem?_range {α : Type} (l : List α) :
    (List.range l.length).filterMap (fun position => l[position]?) = l := by
  induction l with
  | nil => rfl
  | cons a rest ih =>
    rw [List.length_cons, List.range_succ_eq_map, List.filterMap_cons, List.filterMap_map]
    exact congrArg (a :: ·) ih

theorem raised_parallel (passes : List Pass) (units : List SourceUnit) :
    (runParallel passes units).raised
      = units.filterMap fun u => (runPasses passes u).failure := by
  have all := filterMap_getElem?_range (units.map (runPasses passes))
  rw [List.length_map] at all
  rw [runParallel, runInOrder]
  simp only [all, List.filterMap_map]
  rfl

theorem isError_raised_parallel (passes : List Pass) (units : List SourceUnit) :
    (runParallel passes units).raised.map Diagnostic.isError
      = (failures passes units).map Error.isFatal := by
  rw [raised_parallel, failures, List.map_filterMap, List.map_filterMap]
  congr 1
  funext u
  exact map_isError_failure passes u

/-- The order in which a parallel run takes up the units shows in the order of what it raises, and
nowhere in its outcome. -/
theorem outcome_of_perm (passes : List Pass) (units : List SourceUnit) {order : List Nat}
    (perm : order.Perm (List.range units.length)) :
    (conclude units.length (runInOrder passes order units)).outcome
      = (conclude units.length (runParallel passes units)).outcome := by
  have raised : (runInOrder passes order units).raised.Perm (runParallel passes units).raised :=
    (perm.filterMap _).filterMap _
  have anyError : Diagnostic.anyError (runInOrder passes order units).raised
      = Diagnostic.anyError (runParallel passes units).raised := raised.any_eq
  rw [conclude, conclude, anyError, raised.length_eq]
  rfl

def stageRun (passes : List Pass) (parallel : Bool) (units : List SourceUnit) : UnitsRun :=
  if parallel then runParallel passes units else runSerial passes units

theorem anyError_stageRun (passes : List Pass) (parallel : Bool) (units : List SourceUnit) :
    Diagnostic.anyError (stageRun passes parallel units).raised
      = (noticed parallel (failures passes units)).any Error.isFatal := by
  have severities : (stageRun passes parallel units).raised.map Diagnostic.isError
      = (noticed parallel (failures passes units)).map Error.isFatal := by
    cases parallel with
    | true => exact isError_raised_parallel passes units
    | false => exact isError_raised_serial passes units
  have same := congrArg (List.any · id) severities
  simp only [List.any_map, Function.id_comp] at same
  exact same

theorem units_stageRun {passes : List Pass} {units : List SourceUnit} (parallel : Bool)
    (succeeds : failures passes units = []) :
    (stageRun passes parallel units).units = units.map fun u => (runPasses passes u).unit := by
  cases parallel with
  | true => exact List.map_map
  | false => exact units_serial succeeds

/-- A stage returns what the passes make of all units, exactly when no pass fails or a failure that
it notices is fatal. Else it reports success although a pass has failed. -/
theorem outcome_eq_mapM_iff (passes : List Pass) (options : RunOptions) (units : List SourceUnit) :
    ((∀ units', ((normalization passes).run options units).outcome = .ok units' ↔
        units.mapM (applied passes) = .ok units') ↔
      failures passes units = [] ∨
        ∃ e ∈ noticed options.parallel (failures passes units), e.isFatal = true) ∧
    ∀ order : List Nat, order.Perm (List.range units.length) →
      (conclude units.length (runInOrder passes order units)).outcome
        = ((normalization passes).run { options with parallel := true } units).outcome := by
  refine ⟨?_, fun order perm => outcome_of_perm passes units perm⟩
  have reports : ((normalization passes).run options units).outcome
      = if (noticed options.parallel (failures passes units)).any Error.isFatal then
          .error ⟨name, toString (stageRun passes options.parallel units).raised.length
            ++ " compilation unit(s) failed normalization"⟩
        else .ok (stageRun passes options.parallel units).units := by
    rw [← anyError_stageRun]
    rfl
  have applies := mapM_applied passes units
  cases errors : failures passes units with
  | nil =>
    rw [errors] at applies reports
    have quiet : (noticed options.parallel []).any Error.isFatal = false := by
      cases options.parallel <;> rfl
    rw [quiet, units_stageRun options.parallel errors] at reports
    simp only [true_or, iff_true]
    intro units'
    rw [reports, applies]
    simp
  | cons e later =>
    rw [errors] at applies reports
    simp only [applies, reports, reduceCtorEq, false_or, iff_false]
    constructor
    · intro silent
      cases fatal : (noticed options.parallel (e :: later)).any Error.isFatal with
      | true => exact List.any_eq_true.mp fatal
      | false =>
        refine absurd ?_ (silent (stageRun passes options.parallel units).units)
        rw [fatal]
        rfl
    · intro fatal units'
      rw [List.any_eq_true.mpr fatal]
      simp

end Normalization

def Sample.blank (path : String) : SourceUnit := ⟨path, ⟨0, .ofLists [ClassTable.object] [] []⟩, []⟩

def Sample.unused : Error := .diagnostic { severity := .warning, message := "unused" }

def Sample.check : Pass := ⟨"check", fun u => ⟨u, some unused, []⟩⟩

namespace Normalization

open Sample

theorem outcome_eq_mapM_iff_check :
    [1, 0].Perm (List.range [blank "A.java", blank "B.java"].length) ∧
    ((∀ units', ((normalization [check]).run {} [blank "A.java", blank "B.java"]).outcome
          = .ok units' ↔
        [blank "A.java", blank "B.java"].mapM (applied [check]) = .ok units') ↔
      failures [check] [blank "A.java", blank "B.java"] = [] ∨
        ∃ e ∈ noticed true (failures [check] [blank "A.java", blank "B.java"]),
          e.isFatal = true) ∧
    (conclude 2 (runInOrder [check] [1, 0] [blank "A.java", blank "B.java"])).outcome
      = ((normalization [check]).run {} [blank "A.java", blank "B.java"]).outcome := by
  have swapped : [1, 0].Perm (List.range [blank "A.java", blank "B.java"].length) := by decide
  have reports := outcome_eq_mapM_iff [check] {} [blank "A.java", blank "B.java"]
  exact ⟨swapped, reports.1, reports.2 [1, 0] swapped⟩

/-- The pass has failed on the unit, and the stage reports success. -/
theorem outcome_of_check : [blank "Main.java"].mapM (applied [check]) = .error unused ∧
    ((normalization [check]).run {} [blank "Main.java"]).outcome = .ok [blank "Main.java"] ∧
    ((normalization [check]).run { parallel := false } [blank "Main.java"]).outcome
      = .ok [blank "Main.java"] :=
  ⟨rfl, rfl, rfl⟩

end Normalization

end NullabilityCasts
