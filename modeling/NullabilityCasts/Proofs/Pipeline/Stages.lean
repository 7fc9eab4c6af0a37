import NullabilityCasts.Pipeline

/-!
# Pipelines of many stages

A pipeline composes its stages from left to right, up to the first that fails. What the stages raise
stays in order: it is shown after a stage that succeeds, and left pending by one that fails. So
nothing that is raised gets lost, and nothing is shown twice.
-/

set_option autoImplicit false

namespace NullabilityCasts

structure StageReport where
  stage : String
  raised : List Diagnostic
  log : List Event

/-- The stages of a run that succeeded, in order, and the one that failed after them, if one did. -/
structure Progress where
  done : List StageReport
  failed : Option StageReport

namespace Progress

def reports (p : Progress) : List StageReport := p.done ++ p.failed.toList

/-- A batch after each stage that succeeds, of all that is pending then. -/
def batches (verbose : Bool) (pending : List Diagnostic) : List StageReport → List Batch
  | [] => []
  | r :: later => ⟨r.stage, verbose, pending ++ r.raised⟩ :: batches verbose [] later

/-- What is pending in the end. Only a run without a success leaves what was pending before it. -/
def left (pending : List Diagnostic) (p : Progress) : List Diagnostic :=
  (if p.done.isEmpty then pending else []) ++ p.failed.toList.flatMap StageReport.raised

theorem batches_append_left (verbose : Bool) (pending : List Diagnostic) (p : Progress) :
    (batches verbose pending p.done).flatMap Batch.items ++ p.left pending
      = pending ++ p.reports.flatMap StageReport.raised := by
  obtain ⟨done, failed⟩ := p
  induction done generalizing pending with
  | nil => simp [batches, left, reports]
  | cons r later ih =>
    have rest := ih []
    simp only [left, reports, List.nil_append, ite_self] at rest
    simp [batches, left, reports, rest]

theorem stages_batches (verbose : Bool) (pending : List Diagnostic) (done : List StageReport) :
    (batches verbose pending done).map Batch.stage = done.map StageReport.stage := by
  induction done generalizing pending with
  | nil => rfl
  | cons r later ih => simp [batches, ih]

end Progress

namespace Journal

/-- The journal after a run. A batch without diagnostics is not shown. -/
def after (j : Journal) (verbose : Bool) (p : Progress) : Journal where
  pending := p.left j.pending
  shown := j.shown ++ (Progress.batches verbose j.pending p.done).filter fun b => !b.items.isEmpty
  log := j.log ++ p.reports.flatMap StageReport.log

def take (j : Journal) (r : StageReport) : Journal :=
  { j.extend r.raised with log := j.log ++ r.log }

theorem after_nil (j : Journal) (verbose : Bool) : j.after verbose ⟨[], none⟩ = j := by
  simp [after, Progress.left, Progress.batches, Progress.reports]

theorem after_failed (j : Journal) (verbose : Bool) (r : StageReport) :
    j.after verbose ⟨[], some r⟩ = j.take r := by
  simp [after, take, extend, Progress.left, Progress.batches, Progress.reports]

theorem after_cons (j : Journal) (verbose : Bool) (r : StageReport) (p : Progress) :
    j.after verbose ⟨r :: p.done, p.failed⟩
      = ((j.take r).flush r.stage verbose).after verbose p := by
  by_cases quiet : j.pending ++ r.raised = []
  · have flushed : (j.take r).flush r.stage verbose = j.take r := by
      simp [flush, take, extend, quiet]
    rw [flushed]
    simp [after, take, extend, Progress.left, Progress.batches, Progress.reports, quiet]
  · have flushed : (j.take r).flush r.stage verbose
        = { j.take r with
            pending := [], shown := j.shown ++ [⟨r.stage, verbose, j.pending ++ r.raised⟩] } := by
      simp [flush, take, extend, quiet]
    rw [flushed]
    simp [after, take, Progress.left, Progress.batches, Progress.reports, quiet]

end Journal

def Stage.report {α β : Type} (s : Stage α β) (options : RunOptions) (input : α) : StageReport :=
  ⟨s.name, (s.run options input).raised, (s.run options input).log⟩

/-- Stages in the order in which they are added, each taking what the one before it makes. -/
inductive StageList : Type → Type → Type 1
  | nil {α : Type} : StageList α α
  | cons {α β γ : Type} (first : Stage α β) (rest : StageList β γ) : StageList α γ

namespace StageList

def append {α β γ : Type} : StageList α β → StageList β γ → StageList α γ
  | nil, later => later
  | cons first rest, later => cons first (rest.append later)

def names {α β : Type} : StageList α β → List String
  | nil => []
  | cons first rest => first.name :: rest.names

def addTo {α β γ : Type} (p : Pipeline α β) : StageList β γ → Pipeline α γ
  | nil => p
  | cons first rest => rest.addTo (p.andThen first)

def pipeline {α β : Type} (stages : StageList α β) : Pipeline α β := stages.addTo .empty

/-- The composition of the stages. The first that fails ends it, with an error in its own name. -/
def compose {α β : Type} (options : RunOptions) : StageList α β → α → Except StageError β
  | nil, input => .ok input
  | cons first rest, input =>
    match (first.run options input).outcome with
    | .ok middle => rest.compose options middle
    | .error e => .error ⟨first.name, e.message⟩

def progress {α β : Type} (options : RunOptions) : StageList α β → α → Progress
  | nil, _ => ⟨[], none⟩
  | cons first rest, input =>
    match (first.run options input).outcome with
    | .ok middle =>
      let later := rest.progress options middle
      ⟨first.report options input :: later.done, later.failed⟩
    | .error _ => ⟨[], some (first.report options input)⟩

variable {α β γ δ : Type} {options : RunOptions} {s : Stage α β} {input : α}

theorem run_andThen (p : Pipeline δ α) (s : Stage α β) (options : RunOptions) (input : δ)
    (journal : Journal) :
    (p.andThen s).run options input journal = match p.run options input journal with
      | (.error e, journal) => (.error e, journal)
      | (.ok middle, journal) => ((Pipeline.empty.andThen s).run options middle journal) := by
  cases ran : p.run options input journal with
  | mk outcome journal' => cases outcome <;> simp only [Pipeline.andThen, Pipeline.empty, ran]

theorem run_stage_of_ok {middle : β} (succeeds : (s.run options input).outcome = .ok middle)
    (journal : Journal) :
    (Pipeline.empty.andThen s).run options input journal
      = (.ok middle, (journal.take (s.report options input)).flush s.name options.verbose) := by
  simp only [Pipeline.andThen, Pipeline.empty, succeeds]
  rfl

theorem run_stage_of_error {e : StageError} (fails : (s.run options input).outcome = .error e)
    (journal : Journal) :
    (Pipeline.empty.andThen s).run options input journal
      = (.error ⟨s.name, e.message⟩, journal.take (s.report options input)) := by
  simp only [Pipeline.andThen, Pipeline.empty, fails]
  rfl

theorem run_addTo (stages : StageList β γ) (p : Pipeline α β) (options : RunOptions) (input : α)
    (journal : Journal) :
    (stages.addTo p).run options input journal = match p.run options input journal with
      | (.error e, journal) => (.error e, journal)
      | (.ok middle, journal) => stages.pipeline.run options middle journal := by
  induction stages generalizing α journal with
  | nil =>
    cases ran : p.run options input journal with
    | mk outcome journal' => cases outcome <;> exact ran
  | cons first rest ih =>
    change (rest.addTo (p.andThen first)).run options input journal = _
    rw [ih (p.andThen first) input journal, run_andThen]
    cases p.run options input journal with
    | mk outcome journal' =>
      cases outcome with
      | error e => rfl
      | ok middle =>
        change _ = (rest.addTo (Pipeline.empty.andThen first)).run options middle journal'
        rw [ih (Pipeline.empty.andThen first) middle journal']

theorem addTo_append (stages : StageList α β) (later : StageList β γ) (p : Pipeline δ α) :
    (stages.append later).addTo p = later.addTo (stages.addTo p) := by
  induction stages generalizing δ with
  | nil => rfl
  | cons first rest ih => exact ih later (p.andThen first)

theorem run_pipeline_append (stages : StageList α β) (later : StageList β γ) (options : RunOptions)
    (input : α) (journal : Journal) :
    (stages.append later).pipeline.run options input journal =
      match stages.pipeline.run options input journal with
      | (.error e, journal) => (.error e, journal)
      | (.ok middle, journal) => later.pipeline.run options middle journal := by
  rw [pipeline, addTo_append]
  exact run_addTo later _ options input journal

theorem run_pipeline (stages : StageList α β) (options : RunOptions) (input : α)
    (journal : Journal) :
    stages.pipeline.run options input journal
      = (stages.compose options input,
        journal.after options.verbose (stages.progress options input)) := by
  induction stages generalizing journal with
  | nil =>
    rw [progress, Journal.after_nil]
    rfl
  | cons first rest ih =>
    change (rest.addTo (Pipeline.empty.andThen first)).run options input journal = _
    rw [run_addTo, compose, progress]
    cases outcome : (first.run options input).outcome with
    | error e => rw [run_stage_of_error outcome, Journal.after_failed]
    | ok middle =>
      rw [run_stage_of_ok outcome]
      simp only [ih, Journal.after_cons]
      rfl

theorem done_of_compose_ok {stages : StageList α β} {result : β}
    (composed : stages.compose options input = .ok result) :
    (stages.progress options input).failed = none ∧
      (stages.progress options input).done.map StageReport.stage = stages.names := by
  induction stages with
  | nil => exact ⟨rfl, rfl⟩
  | cons first rest ih =>
    rw [compose] at composed
    cases outcome : (first.run options input).outcome with
    | error e =>
      rw [outcome] at composed
      cases composed
    | ok middle =>
      rw [outcome] at composed
      obtain ⟨succeeds, all⟩ := ih composed
      rw [progress, outcome, names]
      exact ⟨succeeds, congrArg (first.name :: ·) all⟩

/-- The stages `before` succeed with `middle`, and then `s` fails with `e`. -/
structure FailsAt (options : RunOptions) (before : StageList α β) (input : α) (s : Stage β γ)
    (middle : β) (e : StageError) : Prop where
  reached : before.compose options input = .ok middle
  failed : (s.run options middle).outcome = .error e

/-- Where a composition fails, there is a stage that fails, after others that succeed. -/
theorem failsAt_of_compose_error {stages : StageList α β} {e : StageError}
    (composed : stages.compose options input = .error e) :
    ∃ (γ δ : Type) (before : StageList α γ) (s : Stage γ δ) (later : StageList δ β) (middle : γ)
      (e' : StageError), stages = before.append (cons s later) ∧
        FailsAt options before input s middle e' ∧ e = ⟨s.name, e'.message⟩ := by
  induction stages with
  | nil => cases composed
  | cons first rest ih =>
    rw [compose] at composed
    cases outcome : (first.run options input).outcome with
    | error e' =>
      rw [outcome] at composed
      exact ⟨_, _, nil, first, rest, input, e', rfl, ⟨rfl, outcome⟩,
        (Except.error.inj composed).symm⟩
    | ok middle =>
      rw [outcome] at composed
      obtain ⟨γ, δ, before, s, later, reached, e', rfl, failsAt, named⟩ := ih composed
      refine ⟨γ, δ, cons first before, s, later, reached, e', rfl, ⟨?_, failsAt.failed⟩, named⟩
      rw [compose, outcome]
      exact failsAt.reached

theorem run_of_failsAt {before : StageList α β} {s : Stage β γ} {middle : β} {e : StageError}
    (failsAt : FailsAt options before input s middle e) (later : StageList γ δ)
    (journal : Journal) :
    (before.append (cons s later)).pipeline.run options input journal =
      (.error ⟨s.name, e.message⟩,
        (before.pipeline.run options input journal).2.take (s.report options middle)) := by
  have ran := run_pipeline before options input journal
  rw [failsAt.reached] at ran
  rw [run_pipeline_append, ran]
  change (later.addTo (Pipeline.empty.andThen s)).run options middle _ = _
  rw [run_addTo, run_stage_of_error failsAt.failed]

/-- What comes of running stages in order. -/
structure RunsInOrder (stages : StageList α β) (options : RunOptions) (input : α)
    (journal : Journal) : Prop where
  run : stages.pipeline.run options input journal
    = (stages.compose options input,
      journal.after options.verbose (stages.progress options input))
  /-- What was pending before and what the stages have raised is in the batches or pending, once and
  in order. -/
  conserved :
    (Progress.batches options.verbose journal.pending
        (stages.progress options input).done).flatMap Batch.items
      ++ (stages.progress options input).left journal.pending
    = journal.pending ++ (stages.progress options input).reports.flatMap StageReport.raised
  batches : (Progress.batches options.verbose journal.pending
      (stages.progress options input).done).map Batch.stage
    = (stages.progress options input).done.map StageReport.stage
  succeeds : ∀ result, stages.compose options input = .ok result →
    (stages.progress options input).failed = none ∧
      (stages.progress options input).done.map StageReport.stage = stages.names
  fails : ∀ e, stages.compose options input = .error e →
    ∃ (γ δ : Type) (before : StageList α γ) (s : Stage γ δ) (later : StageList δ β) (middle : γ)
      (e' : StageError), stages = before.append (cons s later) ∧
        FailsAt options before input s middle e' ∧ e = ⟨s.name, e'.message⟩

/-- The stages of a pipeline run in order, up to the first that fails. That one gives the error its
own name and leaves what it has raised pending, and no stage after it makes a difference. -/
theorem runs_in_order (stages : StageList α β) (options : RunOptions) (input : α)
    (journal : Journal) :
    RunsInOrder stages options input journal ∧
    ∀ {γ δ : Type} (s : Stage β γ) (later : StageList γ δ) (middle : β) (e : StageError),
      FailsAt options stages input s middle e →
      (stages.append (cons s later)).pipeline.run options input journal =
        (.error ⟨s.name, e.message⟩,
          (stages.pipeline.run options input journal).2.take (s.report options middle)) := by
  refine ⟨⟨run_pipeline stages options input journal, Progress.batches_append_left _ _ _,
    Progress.stages_batches _ _ _, fun result => done_of_compose_ok,
    fun e => failsAt_of_compose_error⟩, ?_⟩
  intro γ δ s later middle e failsAt
  exact run_of_failsAt failsAt later journal

end StageList

namespace Sample

def warning (message : String) : Diagnostic := { severity := .warning, message := message }

def count : Stage (List String) Nat :=
  ⟨"count", fun _ names => ⟨.ok names.length, [warning "counted"], []⟩⟩

def refuse : Stage Nat String :=
  ⟨"refuse", fun _ n => ⟨.error ⟨"inner", toString n ++ " left"⟩, [warning "refused"], []⟩⟩

def finish : Stage String String := ⟨"finish", fun _ text => ⟨.ok text, [warning "finished"], []⟩⟩

end Sample

open Sample in
theorem StageList.runs_in_order_refuse :
    FailsAt {} (cons count nil) ["a", "b"] refuse 2 ⟨"inner", "2 left"⟩ ∧
    (cons count (cons refuse (cons finish nil))).pipeline.run {} ["a", "b"]
        { pending := [warning "early"] } =
      (.error ⟨"refuse", "2 left"⟩,
        { pending := [warning "refused"],
          shown := [⟨"count", false, [warning "early", warning "counted"]⟩] }) := by
  have failsAt : FailsAt {} (cons count nil) ["a", "b"] refuse 2 ⟨"inner", "2 left"⟩ :=
    ⟨rfl, by cbv⟩
  have runs := runs_in_order (cons count nil) {} ["a", "b"] { pending := [warning "early"] }
  exact ⟨failsAt, runs.2 refuse (cons finish nil) 2 ⟨"inner", "2 left"⟩ failsAt⟩

end NullabilityCasts
