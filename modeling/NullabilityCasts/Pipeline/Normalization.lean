import NullabilityCasts.CastPass
import NullabilityCasts.Pipeline

/-!
# The normalization stage

The stage runs a list of passes over every unit. A failing pass ends the work on its unit and
raises a diagnostic. Serial runs also leave the units after a failing one alone; parallel runs go
through all units, in whatever order. The stage fails if one of the raised diagnostics is an error.
-/

set_option autoImplicit false

namespace NullabilityCasts

namespace Pass

def failure (pass path : String) (e : Error) : Diagnostic :=
  match e with
  | .diagnostic d => d.inContext pass
  | .internal v =>
    { severity := .error
      message := path ++ ": " ++ v.message
      suggestions := ["set XL_LOSSY=1 to downgrade recoverable checks to warnings"]
      context := some pass
      code := some "compiler-internal" }
  | e =>
    { severity := .error
      message := path ++ ": " ++ e.cause
      context := some pass }

end Pass

namespace Normalization

structure UnitRun where
  unit : SourceUnit
  failure : Option Diagnostic
  log : List Event

def runPasses (passes : List Pass) (u : SourceUnit) : UnitRun :=
  match passes with
  | [] => ⟨u, none, []⟩
  | pass :: rest =>
    let first := pass.run u
    let log := .passStarted pass.name u.path :: first.log
    match first.failure with
    | some e =>
      ⟨first.unit, some (Pass.failure pass.name first.unit.path e),
        log ++ [.passFailed pass.name first.unit.path e]⟩
    | none =>
      let later := runPasses rest first.unit
      { later with log := log ++ later.log }

structure UnitsRun where
  units : List SourceUnit
  raised : List Diagnostic
  log : List Event

/-- One unit after the other, up to the first on which a pass fails. -/
def runSerial (passes : List Pass) : List SourceUnit → UnitsRun
  | [] => ⟨[], [], []⟩
  | u :: rest =>
    let first := runPasses passes u
    match first.failure with
    | some d => ⟨first.unit :: rest, [d], first.log⟩
    | none =>
      let later := runSerial passes rest
      ⟨first.unit :: later.units, later.raised, first.log ++ later.log⟩

/-- All units, where the diagnostics and the log come from taking them up in the given order of
positions. -/
def runInOrder (passes : List Pass) (order : List Nat) (units : List SourceUnit) : UnitsRun :=
  let runs := units.map (runPasses passes)
  let visited := order.filterMap fun position => runs[position]?
  ⟨runs.map UnitRun.unit, visited.filterMap UnitRun.failure, visited.flatMap UnitRun.log⟩

def runParallel (passes : List Pass) (units : List SourceUnit) : UnitsRun :=
  runInOrder passes (List.range units.length) units

def name : String := "normalize"

/-- The outcome of the stage is decided by the severity of the diagnostics, and its error counts
all of them. -/
def conclude (count : Nat) (run : UnitsRun) : StageRun (List SourceUnit) where
  outcome :=
    if Diagnostic.anyError run.raised then
      .error ⟨name, toString run.raised.length ++ " compilation unit(s) failed normalization"⟩
    else .ok run.units
  raised := run.raised
  log := .normalizing count :: run.log

end Normalization

open Normalization in
def normalization (passes : List Pass) : Stage (List SourceUnit) (List SourceUnit) where
  name := Normalization.name
  run options units :=
    conclude units.length
      (if options.parallel then runParallel passes units else runSerial passes units)

def defaultPasses (options : RunOptions) : List Pass := [castPass options.strictness]

def defaultPipeline (options : RunOptions) : Pipeline (List SourceUnit) (List SourceUnit) :=
  Pipeline.empty.andThen (normalization (defaultPasses options))

end NullabilityCasts
