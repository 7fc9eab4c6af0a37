import NullabilityCasts.Diagnostic.Render
import NullabilityCasts.Event
import NullabilityCasts.Settings

/-!
# Pipelines

A pipeline runs its stages in order and stops at the first that fails. Diagnostics raised by a stage
are shown after the stage if it succeeds; those of a failing stage stay pending.
-/

set_option autoImplicit false

namespace NullabilityCasts

structure StageError where
  stage : String
  message : String
  deriving DecidableEq, Repr

def StageError.text (e : StageError) : String := "[" ++ e.stage ++ "] " ++ e.message

structure StageRun (β : Type) where
  outcome : Except StageError β
  raised : List Diagnostic
  log : List Event

structure Stage (α β : Type) where
  name : String
  run : RunOptions → α → StageRun β

/-- Diagnostics that were shown together on behalf of a stage. -/
structure Batch where
  stage : String
  verbose : Bool
  items : List Diagnostic
  deriving DecidableEq, Repr

def Batch.lines (b : Batch) : List String :=
  Diagnostic.emit ⟨.pretty, b.verbose⟩ (some b.stage) b.items

structure Journal where
  pending : List Diagnostic := []
  shown : List Batch := []
  log : List Event := []

namespace Journal

def push (j : Journal) (d : Diagnostic) : Journal := { j with pending := j.pending ++ [d] }

def extend (j : Journal) (ds : List Diagnostic) : Journal := { j with pending := j.pending ++ ds }

def flush (j : Journal) (stage : String) (verbose : Bool) : Journal :=
  if j.pending.isEmpty then j
  else { j with pending := [], shown := j.shown ++ [⟨stage, verbose, j.pending⟩] }

def anyError (j : Journal) : Bool := Diagnostic.anyError j.pending

def lines (j : Journal) : List String := j.shown.flatMap Batch.lines

end Journal

structure Pipeline (α β : Type) where
  run : RunOptions → α → Journal → Except StageError β × Journal

namespace Pipeline

variable {α β γ : Type}

def empty : Pipeline α α := ⟨fun _ input journal => (.ok input, journal)⟩

/-- Adds a stage at the end. Its errors carry its own name, whatever name they were made with. -/
def andThen (p : Pipeline α β) (s : Stage β γ) : Pipeline α γ where
  run options input journal :=
    match p.run options input journal with
    | (.error e, journal) => (.error e, journal)
    | (.ok middle, journal) =>
      let stageRun := s.run options middle
      let journal := { journal.extend stageRun.raised with log := journal.log ++ stageRun.log }
      match stageRun.outcome with
      | .ok result => (.ok result, journal.flush s.name options.verbose)
      | .error e => (.error ⟨s.name, e.message⟩, journal)

end Pipeline

end NullabilityCasts
