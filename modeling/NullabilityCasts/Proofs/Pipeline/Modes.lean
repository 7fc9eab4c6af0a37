import NullabilityCasts.Proofs.CastPass.Strictness
import NullabilityCasts.Proofs.Pipeline.Success

/-!
# Serial and parallel runs

The pipeline that every run has, where a parallel run takes up the units in some order. It succeeds
or fails in either mode alike. A parallel run that fails reports every unit on which the cast pass
fails, and a serial run the first of them.
-/

set_option autoImplicit false

namespace NullabilityCasts

namespace CastPass

def fails (strictness : Strictness) (u : SourceUnit) : Bool := (run strictness u).failure.isSome

def report? (strictness : Strictness) (u : SourceUnit) : Option Diagnostic :=
  (run strictness u).failure.map (Pass.failure name u.path)

theorem path_run (strictness : Strictness) (u : SourceUnit) :
    (run strictness u).unit.path = u.path := by
  rw [unit_run]
  rfl

theorem internal_of_failure {strictness : Strictness} {u : SourceUnit} {e : Error}
    (failed : (run strictness u).failure = some e) : ∃ v, e = .internal v := by
  have outcome := run_outcome strictness u
  cases decided : (rule u.types.table strictness).atSites u.sites with
  | error v =>
    rw [decided] at outcome
    exact ⟨v, Option.some.inj (failed.symm.trans outcome)⟩
  | ok casts =>
    rw [decided] at outcome
    obtain ⟨log, ran⟩ := outcome
    rw [ran] at failed
    cases failed

theorem report_of_failure {strictness : Strictness} {u : SourceUnit} {d : Diagnostic}
    (reported : report? strictness u = some d) :
    d.severity = .error ∧ d.code = some "compiler-internal" := by
  obtain ⟨e, failed, rfl⟩ := Option.map_eq_some_iff.mp reported
  obtain ⟨v, rfl⟩ := internal_of_failure failed
  exact ⟨rfl, rfl⟩

theorem isSome_report (strictness : Strictness) (u : SourceUnit) :
    (report? strictness u).isSome = fails strictness u :=
  Option.isSome_map

theorem report_eq_none_iff {strictness : Strictness} {u : SourceUnit} :
    report? strictness u = none ↔ fails strictness u = false := by
  rw [← isSome_report, Option.isSome_eq_false_iff, Option.isNone_iff_eq_none]

end CastPass

namespace Normalization

def failureOf (passes : List Pass) (u : SourceUnit) : Option Diagnostic :=
  (runPasses passes u).failure

theorem raised_serial (passes : List Pass) (units : List SourceUnit) :
    (runSerial passes units).raised = (units.findSome? (failureOf passes)).toList := by
  induction units with
  | nil => rfl
  | cons u rest ih =>
    rw [List.findSome?_cons]
    cases first : failureOf passes u with
    | some d =>
      have failed : (runPasses passes u).failure = some d := first
      simp only [runSerial, failed, Option.toList_some]
    | none =>
      have succeeds : (runPasses passes u).failure = none := first
      simp only [runSerial, succeeds]
      exact ih

theorem raised_inOrder (passes : List Pass) (order : List Nat) (units : List SourceUnit) :
    (runInOrder passes order units).raised
      = (order.filterMap fun position => units[position]?).filterMap (failureOf passes) := by
  have visited : (fun position => (units.map (runPasses passes))[position]?)
      = fun position => units[position]?.map (runPasses passes) :=
    funext fun position => List.getElem?_map
  simp only [runInOrder, visited, ← List.map_filterMap, List.filterMap_map]
  rfl

/-- Every unit is taken up once. -/
theorem perm_units {units : List SourceUnit} {order : List Nat}
    (perm : order.Perm (List.range units.length)) :
    (order.filterMap fun position => units[position]?).Perm units := by
  have all := perm.filterMap fun position => units[position]?
  rwa [filterMap_getElem?_range] at all

theorem failures_eq_nil {passes : List Pass} {units : List SourceUnit}
    (succeed : ∀ u ∈ units, failureOf passes u = none) : failures passes units = [] := by
  refine List.filterMap_eq_nil_iff.mpr fun u member => ?_
  have succeeds : (runPasses passes u).failure = none := succeed u member
  have severity := map_isError_failure passes u
  rw [succeeds] at severity
  exact Option.map_eq_none_iff.mp severity.symm

/-- A run in which parallel runs take up the units in the given order of positions. -/
def runMode (passes : List Pass) (order : List Nat) (parallel : Bool) (units : List SourceUnit) :
    UnitsRun :=
  if parallel then runInOrder passes order units else runSerial passes units

def inOrder (passes : List Pass) (order : List Nat) :
    Stage (List SourceUnit) (List SourceUnit) where
  name := name
  run options units := conclude units.length (runMode passes order options.parallel units)

theorem units_of_succeeds {passes : List Pass} {units : List SourceUnit} (order : List Nat)
    (parallel : Bool) (succeed : ∀ u ∈ units, failureOf passes u = none) :
    (runMode passes order parallel units).units
      = units.map fun u => (runPasses passes u).unit := by
  cases parallel with
  | true => exact List.map_map
  | false => exact units_serial (failures_eq_nil succeed)

theorem anyError_of_reports {ds : List Diagnostic} (errors : ∀ d ∈ ds, d.severity = .error) :
    Diagnostic.anyError ds = !ds.isEmpty := by
  cases ds with
  | nil => rfl
  | cons d rest =>
    have isError : d.isError = true := by
      rw [Diagnostic.isError, errors d List.mem_cons_self]
      rfl
    rw [Diagnostic.anyError, List.any_cons, isError]
    rfl

/-- The end of a run in which nothing less than an error is raised. -/
theorem run_inOrder {passes : List Pass} {order : List Nat} {units : List SourceUnit}
    (options : RunOptions)
    (errors : ∀ d ∈ (runMode passes order options.parallel units).raised, d.severity = .error)
    (journal : Journal) :
    ∃ log, (Pipeline.empty.andThen (inOrder passes order)).run options units journal =
      if (runMode passes order options.parallel units).raised.isEmpty then
        (.ok (runMode passes order options.parallel units).units,
          ({ journal with log := log } : Journal).flush name options.verbose)
      else
        (.error ⟨name, toString (runMode passes order options.parallel units).raised.length
            ++ " compilation unit(s) failed normalization"⟩,
          { journal with
            pending := journal.pending ++ (runMode passes order options.parallel units).raised
            log := log }) := by
  refine ⟨journal.log ++ ((inOrder passes order).run options units).log, ?_⟩
  simp only [Pipeline.andThen, Pipeline.empty, inOrder, conclude, anyError_of_reports errors]
  cases raised : (runMode passes order options.parallel units).raised with
  | nil => simp [Journal.extend]
  | cons d rest => simp [Journal.extend]

end Normalization

open CastPass Normalization

/-- The default pipeline where parallel runs take up the units in the given order of positions. -/
def defaultPipelineIn (order : List Nat) (setup : RunOptions) :
    Pipeline (List SourceUnit) (List SourceUnit) :=
  Pipeline.empty.andThen (inOrder (defaultPasses setup) order)

theorem failureOf_default (setup : RunOptions) :
    failureOf (defaultPasses setup) = report? setup.strictness := by
  funext u
  rw [failureOf, defaultPasses, runPasses, report?, castPass, path_run]
  cases failed : (CastPass.run setup.strictness u).failure <;> rfl

theorem unit_default (setup : RunOptions) (u : SourceUnit) :
    (runPasses (defaultPasses setup) u).unit = (CastPass.run setup.strictness u).unit := by
  rw [defaultPasses, runPasses, castPass]
  cases failed : (CastPass.run setup.strictness u).failure <;> rfl

theorem raised_default (setup : RunOptions) (order : List Nat) (parallel : Bool)
    (units : List SourceUnit) :
    (runMode (defaultPasses setup) order parallel units).raised =
      if parallel then
        (order.filterMap fun position => units[position]?).filterMap (report? setup.strictness)
      else (units.findSome? (report? setup.strictness)).toList := by
  rw [← failureOf_default]
  cases parallel with
  | true => exact raised_inOrder _ order units
  | false => exact raised_serial _ units

theorem severity_raised (setup : RunOptions) (order : List Nat) (parallel : Bool)
    (units : List SourceUnit) :
    ∀ d ∈ (runMode (defaultPasses setup) order parallel units).raised, d.severity = .error := by
  intro d raised
  rw [raised_default] at raised
  cases parallel with
  | true =>
    obtain ⟨u, _, reported⟩ := List.mem_filterMap.mp raised
    exact (report_of_failure reported).1
  | false =>
    obtain ⟨u, _, reported⟩ := List.exists_of_findSome?_eq_some (Option.mem_toList.mp raised)
    exact (report_of_failure reported).1

theorem raised_eq_nil_iff {setup : RunOptions} {order : List Nat} {units : List SourceUnit}
    (perm : order.Perm (List.range units.length)) (parallel : Bool) :
    (runMode (defaultPasses setup) order parallel units).raised = [] ↔
      ∀ u ∈ units, fails setup.strictness u = false := by
  rw [raised_default]
  simp only [← report_eq_none_iff]
  cases parallel with
  | true =>
    refine List.filterMap_eq_nil_iff.trans (forall_congr' fun u => ?_)
    rw [(perm_units perm).mem_iff]
  | false => exact Option.toList_eq_nil_iff.trans List.findSome?_eq_none_iff

section Outcome

variable {setup : RunOptions} {order : List Nat} {units : List SourceUnit} (options : RunOptions)

theorem defaultPipelineIn_of_succeeds (perm : order.Perm (List.range units.length))
    (succeed : ∀ u ∈ units, fails setup.strictness u = false) (journal : Journal) :
    ∃ log, (defaultPipelineIn order setup).run options units journal =
      (.ok (units.map fun u => (CastPass.run setup.strictness u).unit),
        ({ journal with log := log } : Journal).flush Normalization.name options.verbose) := by
  obtain ⟨log, ran⟩ :=
    run_inOrder options (severity_raised setup order options.parallel units) journal
  have quiet : ∀ u ∈ units, failureOf (defaultPasses setup) u = none := by
    intro u member
    rw [failureOf_default]
    exact report_eq_none_iff.mpr (succeed u member)
  refine ⟨log, ran.trans ?_⟩
  rw [(raised_eq_nil_iff perm options.parallel).mpr succeed,
    units_of_succeeds order options.parallel quiet]
  simp only [unit_default, List.isEmpty_nil, ↓reduceIte]

theorem defaultPipelineIn_of_fails (perm : order.Perm (List.range units.length))
    (failing : ∃ u ∈ units, fails setup.strictness u = true) (journal : Journal) :
    ∃ log, (defaultPipelineIn order setup).run options units journal =
      (.error ⟨Normalization.name,
          toString (runMode (defaultPasses setup) order options.parallel units).raised.length
            ++ " compilation unit(s) failed normalization"⟩,
        { journal with
          pending := journal.pending
            ++ (runMode (defaultPasses setup) order options.parallel units).raised
          log := log }) := by
  obtain ⟨log, ran⟩ :=
    run_inOrder options (severity_raised setup order options.parallel units) journal
  refine ⟨log, ran.trans ?_⟩
  have some : (runMode (defaultPasses setup) order options.parallel units).raised ≠ [] := by
    intro none
    obtain ⟨u, member, fails⟩ := failing
    rw [(raised_eq_nil_iff perm options.parallel).mp none u member] at fails
    cases fails
  rw [List.isEmpty_eq_false_iff.mpr some]
  rfl

end Outcome

theorem findSome?_report (strictness : Strictness) (units : List SourceUnit) :
    units.findSome? (report? strictness)
      = (units.find? (fails strictness)).bind (report? strictness) := by
  induction units with
  | nil => rfl
  | cons u rest ih =>
    have same := isSome_report strictness u
    rw [List.findSome?_cons, List.find?_cons]
    cases reported : report? strictness u with
    | some d =>
      rw [reported] at same
      rw [← same]
      exact reported.symm
    | none =>
      rw [reported] at same
      rw [← same]
      exact ih

theorem length_reports {strictness : Strictness} {order : List Nat} {units : List SourceUnit}
    (perm : order.Perm (List.range units.length)) :
    ((order.filterMap fun position => units[position]?).filterMap (report? strictness)).length
      = units.countP (fails strictness) := by
  rw [List.length_filterMap_eq_countP, (perm_units perm).countP_eq]
  congr 1
  funext u
  exact isSome_report strictness u

/-- How the default pipeline ends in either mode, where a parallel run takes up the units in the
given order of positions. -/
structure ModesAgree (setup options : RunOptions) (order : List Nat) (units : List SourceUnit)
    (journal : Journal) : Prop where
  succeeds_iff : ∀ parallel,
    (∃ result, ((defaultPipelineIn order setup).run { options with parallel := parallel } units
        journal).1 = .ok result) ↔
      ∀ u ∈ units, fails setup.strictness u = false
  succeeds : (∀ u ∈ units, fails setup.strictness u = false) → ∀ parallel, ∃ log,
    (defaultPipelineIn order setup).run { options with parallel := parallel } units journal =
      (.ok (units.map fun u => (CastPass.run setup.strictness u).unit),
        ({ journal with log := log } : Journal).flush Normalization.name options.verbose)
  /-- One diagnostic for every failing unit, in the order in which they were taken up. -/
  parallelFails : (∃ u ∈ units, fails setup.strictness u = true) → ∃ log,
    (defaultPipelineIn order setup).run { options with parallel := true } units journal =
      (.error ⟨Normalization.name, toString (units.countP (fails setup.strictness))
          ++ " compilation unit(s) failed normalization"⟩,
        { journal with
          pending := journal.pending ++
            (order.filterMap fun position => units[position]?).filterMap (report? setup.strictness)
          log := log })
  /-- The diagnostic of the first failing unit. -/
  serialFails : ∀ u, units.find? (fails setup.strictness) = some u → ∃ d log,
    report? setup.strictness u = some d ∧
    (defaultPipelineIn order setup).run { options with parallel := false } units journal =
      (.error ⟨Normalization.name, "1 compilation unit(s) failed normalization"⟩,
        { journal with pending := journal.pending ++ [d], log := log })
  reports : ∀ u, (report? setup.strictness u).isSome = fails setup.strictness u ∧
    ∀ d, report? setup.strictness u = some d →
      d.severity = .error ∧ d.code = some "compiler-internal"

/-- Serial and parallel runs of the default pipeline agree, whatever the order in which a parallel
run takes up the units. -/
theorem defaultPipeline_modes_agree (setup options : RunOptions) (units : List SourceUnit)
    (journal : Journal) :
    (defaultPipeline setup).run options units journal
      = (defaultPipelineIn (List.range units.length) setup).run options units journal ∧
    ∀ order : List Nat, order.Perm (List.range units.length) →
      ModesAgree setup options order units journal := by
  refine ⟨rfl, fun order perm => ?_⟩
  refine ⟨?_, ?_, ?_, ?_, ?_⟩
  · intro parallel
    constructor
    · rintro ⟨result, ended⟩ u member
      cases failing : fails setup.strictness u with
      | false => rfl
      | true =>
        obtain ⟨log, ran⟩ := defaultPipelineIn_of_fails { options with parallel := parallel } perm
          ⟨u, member, failing⟩ journal
        rw [ran] at ended
        cases ended
    · intro succeed
      obtain ⟨log, ran⟩ := defaultPipelineIn_of_succeeds { options with parallel := parallel } perm
        succeed journal
      exact ⟨_, congrArg Prod.fst ran⟩
  · intro succeed parallel
    exact defaultPipelineIn_of_succeeds { options with parallel := parallel } perm succeed journal
  · intro failing
    obtain ⟨log, ran⟩ := defaultPipelineIn_of_fails { options with parallel := true } perm failing
      journal
    rw [raised_default] at ran
    simp only [↓reduceIte, length_reports perm] at ran
    exact ⟨log, ran⟩
  · intro u first
    have failing : fails setup.strictness u = true := List.find?_some first
    obtain ⟨log, ran⟩ := defaultPipelineIn_of_fails { options with parallel := false } perm
      ⟨u, List.mem_of_find?_eq_some first, failing⟩ journal
    obtain ⟨d, reported⟩ := Option.isSome_iff_exists.mp
      ((isSome_report setup.strictness u).trans failing)
    have raised : units.findSome? (report? setup.strictness) = some d := by
      rw [findSome?_report, first]
      exact reported
    rw [raised_default] at ran
    simp only [Bool.false_eq_true, ↓reduceIte, raised, Option.toList_some,
      List.length_singleton] at ran
    exact ⟨d, log, reported, ran⟩
  · exact fun u => ⟨isSome_report setup.strictness u, fun d => report_of_failure⟩

open Sample in
theorem defaultPipeline_modes_agree_catalog :
    [2, 0, 1].Perm (List.range [catalog, greeter, catalog].length) ∧
    ModesAgree {} {} [2, 0, 1] [catalog, greeter, catalog] {} ∧
    ([catalog, greeter, catalog].map (fails .strict) = [true, false, true]) ∧
    ∃ log, (defaultPipelineIn [2, 0, 1] {}).run {} [catalog, greeter, catalog] {} =
      (.error ⟨"normalize", "2 compilation unit(s) failed normalization"⟩,
        { pending := [catalog, catalog, greeter].filterMap (report? .strict), log := log }) := by
  have turned : [2, 0, 1].Perm (List.range [catalog, greeter, catalog].length) := by decide
  have failures : [catalog, greeter, catalog].map (fails .strict) = [true, false, true] := by cbv
  have agree := (defaultPipeline_modes_agree {} {} [catalog, greeter, catalog] {}).2 _ turned
  obtain ⟨log, ran⟩ := agree.parallelFails
    ⟨catalog, List.mem_cons_self, (List.cons_eq_cons.mp failures).1⟩
  have two : [catalog, greeter, catalog].countP (fails .strict) = 2 := by cbv
  rw [two] at ran
  exact ⟨turned, agree, failures, log, ran⟩

end NullabilityCasts
