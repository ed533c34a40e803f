import AnnotationReport.Report.Script

/-! # Calls in flight

All the ways in which the calls of a report may overlap. A call for annotations starts, in the order
of the jobs, while fewer than the concurrency allows are outstanding; a call that has started may
end at any time; and the first outstanding job is written once its call has ended, which makes room
for another call. A report that has a result moves no more.
-/
namespace AnnotationReport.Report.FanOut

/-- Outstanding jobs are in the window, in their order, each with whether its call has ended. -/
structure State where
  waiting : List Job
  window : List (Job × Bool)
  summary : Summary
  done : List Step
  sink : Sink
  result : Option (Except String Summary)

namespace State

def carryOut (s : State) (steps : List Step) : State :=
  let played := play s.sink steps
  { s with
    done := s.done ++ played.done
    sink := played.sink
    result := played.stopped.map fun e => .error e.message }

/-- Writes a job whose call has ended, or gives up with its failure. -/
def emit (s : State) (answers : Answers) (job : Job) (window : List (Job × Bool)) : State :=
  match answers.annotations job.id with
  | .error cause => { s with result := some (.error (jobFailure job cause)) }
  | .ok found =>
    { s.carryOut (jobSteps job (found.getD [])) with
      window := window
      summary := s.summary.add (found.getD []) }

def finish (s : State) : State :=
  let t := s.carryOut [.flush, .note (summaryNote s.summary)]
  { t with result := t.result.or (some (.ok s.summary)) }

end State

def listed (c : RunConfig) (jobs : List Job) (notes : List Step) (sink : Sink) : State :=
  (⟨jobs, [], ⟨jobs.length, 0, 0⟩, [], sink, none⟩ : State).carryOut
    ([.note (listingNote c), .askJobs] ++ notes ++ [.writeLine (idsLine jobs)])

def start (c : RunConfig) (answers : Answers) (sink : Sink) : State :=
  match answers.jobs with
  | .error cause =>
    ⟨[], [], ⟨0, 0, 0⟩, [.note (listingNote c), .askJobs], sink,
      some (.error (jobsFailure c cause))⟩
  | .ok none => listed c [] [.note (noJobsNote c)] sink
  | .ok (some jobs) => listed c jobs [] sink

/-- One move of a report with at most `limit` outstanding calls. -/
inductive Move (limit : Nat) (answers : Answers) : State → State → Prop
  | begin {s : State} {job : Job} {r : List Job} :
      s.result = none → s.waiting = job :: r → s.window.length < limit →
      Move limit answers s
        { s with
          waiting := r
          window := s.window ++ [(job, false)]
          done := s.done ++ [.askAnnotations job.id] }
  | complete {s : State} {before after : List (Job × Bool)} {job : Job} :
      s.result = none → s.window = before ++ (job, false) :: after →
      Move limit answers s { s with window := before ++ (job, true) :: after }
  | emit {s : State} {job : Job} {after : List (Job × Bool)} :
      s.result = none → s.window = (job, true) :: after →
      Move limit answers s (s.emit answers job after)
  | finish {s : State} :
      s.result = none → s.waiting = [] → s.window = [] →
      Move limit answers s s.finish

inductive Reaches (limit : Nat) (answers : Answers) : State → State → Prop
  | refl (s : State) : Reaches limit answers s s
  | step {s t u : State} :
      Reaches limit answers s t → Move limit answers t u → Reaches limit answers s u

end AnnotationReport.Report.FanOut
