import AnnotationReport.Api.Annotation
import AnnotationReport.Api.Job
import AnnotationReport.Config.Basic
import AnnotationReport.Report.Sink
import AnnotationReport.Report.Trace
import AnnotationReport.Text.Digits
import AnnotationReport.Text.Utf8

/-! # Reports

The answers of the API settle what a report does, step by step: the script of the report. Calls for
annotations start in the order of the jobs, as many ahead as the concurrency allows, and the jobs
are written in their order whichever call ends first. Playing a script against a sink stops at the
first step that the sink refuses.
-/
namespace AnnotationReport

/-- What the API answers; a call that fails says why. -/
structure Answers where
  jobs : Except String (Option (List Job))
  annotations : Nat → Except String (Option (List Annotation))

namespace Report

/-- What a report counts. -/
structure Summary where
  jobs : Nat
  annotations : Nat
  reported : Nat
deriving DecidableEq, Repr

inductive Step where
  | note (n : Trace.Note)
  | askJobs
  | askAnnotations (job : Nat)
  | writeLine (line : List Char)
  | flush
deriving DecidableEq, Repr

/-- Steps, and how the report ends when they are all carried out. -/
structure Script where
  steps : List Step
  ending : Except String Summary

def decimal (n : Nat) : String := String.ofList (Text.decimal n)

def idsLine (jobs : List Job) : List Char :=
  "run ids: [".toList ++ [',', ' '].intercalate (jobs.map fun j => Text.decimal j.id) ++ [']']

def noneLine (job : Job) : List Char :=
  "info: no annotations found for job ".toList ++ Text.decimal job.id

def listingNote (c : RunConfig) : Trace.Note :=
  ⟨.verbose, "Listing jobs of run " ++ c.runId ++ " in " ++ c.repository.text⟩

def noJobsNote (c : RunConfig) : Trace.Note :=
  ⟨.error, "Error: could not get jobs for repository " ++ c.repository.text⟩

def jobNote (job : Job) (count : Nat) : Trace.Note :=
  ⟨.verbose, "Job " ++ decimal job.id ++ " (" ++ job.name.getD "unnamed" ++ ") has " ++
    decimal count ++ " annotation(s)"⟩

def summaryNote (s : Summary) : Trace.Note :=
  ⟨.info, "Inspected " ++ decimal s.jobs ++ " job(s): " ++ decimal s.annotations ++
    " annotation(s) fetched, " ++ decimal s.reported ++ " reported"⟩

def jobsFailure (c : RunConfig) (cause : String) : String :=
  "Failed to get jobs of run " ++ c.runId ++ ": " ++ cause

def jobFailure (job : Job) (cause : String) : String :=
  "Failed to get annotations for job " ++ decimal job.id ++ ": " ++ cause

/-- The lines of one job: its reportable annotations, or that it has no annotations. -/
def jobSteps (job : Job) (annotations : List Annotation) : List Step :=
  if annotations.isEmpty then [.writeLine (noneLine job)]
  else .note (jobNote job annotations.length) ::
    (annotations.filter Annotation.isReportable).map fun a => .writeLine a.text

def Summary.add (s : Summary) (annotations : List Annotation) : Summary :=
  { s with
    annotations := s.annotations + annotations.length
    reported := s.reported + (annotations.filter Annotation.isReportable).length }

/-- The jobs that are still to be written, and those of them whose calls have not started. After
each job that is written one more call starts. -/
def jobsScript (answers : Answers) (s : Summary) : List Job → List Job → Script
  | [], _ => ⟨[.flush, .note (summaryNote s)], .ok s⟩
  | job :: r, waiting =>
    match answers.annotations job.id with
    | .error cause => ⟨[], .error (jobFailure job cause)⟩
    | .ok found =>
      let rest := jobsScript answers (s.add (found.getD [])) r (waiting.drop 1)
      ⟨jobSteps job (found.getD []) ++ (waiting.take 1).map (.askAnnotations ·.id) ++ rest.steps,
        rest.ending⟩

/-- What follows once the jobs are known. -/
def listedScript (c : RunConfig) (answers : Answers) (jobs : List Job) : Script :=
  let window := c.concurrency.limit
  let rest := jobsScript answers ⟨jobs.length, 0, 0⟩ jobs (jobs.drop window)
  ⟨.writeLine (idsLine jobs) :: (jobs.take window).map (.askAnnotations ·.id) ++ rest.steps,
    rest.ending⟩

def script (c : RunConfig) (answers : Answers) : Script :=
  let start := [.note (listingNote c), .askJobs]
  match answers.jobs with
  | .error cause => ⟨start, .error (jobsFailure c cause)⟩
  | .ok none =>
    let rest := listedScript c answers []
    ⟨start ++ .note (noJobsNote c) :: rest.steps, rest.ending⟩
  | .ok (some jobs) =>
    let rest := listedScript c answers jobs
    ⟨start ++ rest.steps, rest.ending⟩

/-- What a step does to a sink. -/
def Step.apply (s : Sink) : Step → Sink × Except Sink.Error Unit
  | writeLine line => s.write (Text.Utf8.encode (line ++ ['\n']))
  | flush => (s, s.flush)
  | _ => (s, .ok ())

/-- The steps that were carried out, the sink after them, and what stopped them. -/
structure Played where
  done : List Step
  sink : Sink
  stopped : Option Sink.Error
deriving DecidableEq, Repr

def play (s : Sink) : List Step → Played
  | [] => ⟨[], s, none⟩
  | step :: r =>
    match step.apply s with
    | (t, .ok ()) =>
      let rest := play t r
      { rest with done := step :: rest.done }
    | (t, .error e) => ⟨[], t, some e⟩

@[simp] theorem play_nil (s : Sink) : play s [] = ⟨[], s, none⟩ := rfl

/-- Steps are played one after the other, unless the first ones are stopped. -/
theorem play_append (s : Sink) (first second : List Step) :
    play s (first ++ second) =
      match (play s first).stopped with
      | some _ => play s first
      | none =>
        let rest := play (play s first).sink second
        { rest with done := (play s first).done ++ rest.done } := by
  induction first generalizing s with
  | nil => rfl
  | cons step r ih =>
    simp only [List.cons_append, play]
    split
    · rename_i t _
      rw [ih t]
      cases h : (play t r).stopped <;> simp [h]
    · rfl

/-- A report as it went. -/
structure Outcome where
  done : List Step
  sink : Sink
  result : Except String Summary

def run (c : RunConfig) (answers : Answers) (s : Sink) : Outcome :=
  let all := script c answers
  let played := play s all.steps
  ⟨played.done, played.sink,
    match played.stopped with
    | none => all.ending
    | some e => .error e.message⟩

def Step.note? : Step → Option Trace.Note
  | note n => some n
  | _ => none

/-- The notes among steps. -/
def trace (steps : List Step) : Trace := steps.filterMap Step.note?

@[simp] theorem trace_append (first second : List Step) :
    trace (first ++ second) = trace first ++ trace second :=
  List.filterMap_append

/-- A report run several times, each time on the sink as the run before left it. -/
def runs (c : RunConfig) (answers : Answers) : Nat → Sink → List Outcome
  | 0, _ => []
  | n + 1, s =>
    let first := run c answers s
    first :: runs c answers n first.sink

end Report
end AnnotationReport
