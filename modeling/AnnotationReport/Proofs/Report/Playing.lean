import AnnotationReport.Report.Script

/-! # Playing scripts

What a report shows of itself is its sink, its notes and its result. Calls leave no mark on these, so
reports with different concurrency show the same; a sink without a limit takes every line.
-/
namespace AnnotationReport.Report

theorem write_unlimited (canFlush : Bool) (before bytes : List UInt8) :
    (⟨none, canFlush, before⟩ : Sink).write bytes = (⟨none, canFlush, before ++ bytes⟩, .ok ()) := by
  simp [Sink.write, Sink.room]

def Script.outcome (script : Script) (s : Sink) : Outcome :=
  let played := play s script.steps
  ⟨played.done, played.sink,
    match played.stopped with
    | none => script.ending
    | some e => .error e.message⟩

theorem run_eq_outcome (c : RunConfig) (answers : Answers) (s : Sink) :
    run c answers s = (script c answers).outcome s := rfl

theorem Script.outcome_append {first : List Step} {s : Sink} (h : (play s first).stopped = none)
    (rest : Script) :
    (⟨first ++ rest.steps, rest.ending⟩ : Script).outcome s =
      { rest.outcome (play s first).sink with
        done := (play s first).done ++ (rest.outcome (play s first).sink).done } := by
  simp only [Script.outcome, play_append, h]

/-- What a report shows, whichever calls it made and when. -/
structure Shown where
  sink : Sink
  notes : Trace
  result : Except String Summary

def Outcome.shown (o : Outcome) : Shown := ⟨o.sink, trace o.done, o.result⟩

def Script.shown (script : Script) (s : Sink) : Shown := (script.outcome s).shown

def Shown.after (v : Shown) (notes : Trace) : Shown := { v with notes := notes ++ v.notes }

@[simp] theorem Shown.after_after (v : Shown) (first second : Trace) :
    (v.after second).after first = v.after (first ++ second) := by
  simp [Shown.after]

theorem Script.shown_append (first : List Step) (rest : Script) (s : Sink) :
    (⟨first ++ rest.steps, rest.ending⟩ : Script).shown s =
      match (play s first).stopped with
      | some e => ⟨(play s first).sink, trace (play s first).done, .error e.message⟩
      | none => (rest.shown (play s first).sink).after (trace (play s first).done) := by
  simp only [Script.shown, Script.outcome, Outcome.shown, play_append]
  cases h : (play s first).stopped with
  | some e => simp [h]
  | none => simp [Shown.after]

/-- Scripts that show the same on every sink still do so after the same first steps. -/
theorem Script.shown_append_congr {rest other : Script} (h : rest.shown = other.shown)
    (first : List Step) (s : Sink) :
    (⟨first ++ rest.steps, rest.ending⟩ : Script).shown s =
      (⟨first ++ other.steps, other.ending⟩ : Script).shown s := by
  rw [Script.shown_append, Script.shown_append, h]

section Calls

def Step.isCall : Step → Bool
  | askJobs => true
  | askAnnotations _ => true
  | _ => false

def calls (steps : List Step) : List Step := steps.filter Step.isCall

@[simp] theorem calls_append (first second : List Step) :
    calls (first ++ second) = calls first ++ calls second :=
  List.filter_append first second

theorem calls_askAnnotations (jobs : List Job) :
    calls (jobs.map (.askAnnotations ·.id)) = jobs.map (.askAnnotations ·.id) := by
  simp [calls, Step.isCall]

@[simp] theorem calls_jobSteps (job : Job) (annotations : List Annotation) :
    calls (jobSteps job annotations) = [] := by
  unfold jobSteps
  split
  · rfl
  · refine List.filter_eq_nil_iff.mpr ?_
    intro step hs
    rcases List.mem_cons.mp hs with rfl | hs
    · simp [Step.isCall]
    · obtain ⟨a, _, rfl⟩ := List.mem_map.mp hs
      simp [Step.isCall]

theorem play_calls {steps : List Step} (h : ∀ step ∈ steps, step.isCall) (s : Sink) :
    play s steps = ⟨steps, s, none⟩ := by
  induction steps with
  | nil => rfl
  | cons step r ih =>
    obtain ⟨hstep, hr⟩ := List.forall_mem_cons.mp h
    have ha : step.apply s = (s, .ok ()) := by cases step <;> simp [Step.isCall, Step.apply] at hstep ⊢
    simp only [play, ha, ih hr]

theorem trace_calls {steps : List Step} (h : ∀ step ∈ steps, step.isCall) : trace steps = [] := by
  refine List.filterMap_eq_nil_iff.mpr ?_
  intro step hs
  have hc := h step hs
  cases step <;> simp [Step.isCall, Step.note?] at hc ⊢

theorem Script.shown_calls {first : List Step} (h : ∀ step ∈ first, step.isCall) (rest : Script)
    (s : Sink) : (⟨first ++ rest.steps, rest.ending⟩ : Script).shown s = rest.shown s := by
  rw [Script.shown_append, play_calls h, trace_calls h]
  rfl

theorem isCall_of_mem_asks {jobs : List Job} :
    ∀ step ∈ jobs.map (Step.askAnnotations ·.id), step.isCall := by
  intro step hs
  obtain ⟨job, _, rfl⟩ := List.mem_map.mp hs
  rfl

end Calls

section Concurrency

theorem jobsScript_shown (answers : Answers) (summary : Summary) (jobs waiting : List Job) :
    (jobsScript answers summary jobs waiting).shown = (jobsScript answers summary jobs []).shown := by
  funext s
  induction jobs generalizing summary waiting s with
  | nil => rfl
  | cons job r ih =>
    cases h : answers.annotations job.id with
    | error cause => simp only [jobsScript, h]
    | ok found =>
      simp only [jobsScript, h, List.append_assoc, List.take_nil, List.map_nil, List.nil_append,
        List.drop_nil]
      have hr : (⟨(waiting.take 1).map (.askAnnotations ·.id) ++
            (jobsScript answers (summary.add (found.getD [])) r (waiting.drop 1)).steps,
            (jobsScript answers (summary.add (found.getD [])) r (waiting.drop 1)).ending⟩ : Script).shown =
          (jobsScript answers (summary.add (found.getD [])) r []).shown := by
        funext t
        exact (Script.shown_calls isCall_of_mem_asks _ t).trans (ih _ _ t)
      exact Script.shown_append_congr hr _ s

/-- Once the jobs are known, their line comes first and then each of them is written. -/
theorem listedScript_shown (c : RunConfig) (answers : Answers) (jobs : List Job)
    (first : List Step) (s : Sink) :
    (⟨first ++ (listedScript c answers jobs).steps, (listedScript c answers jobs).ending⟩ : Script).shown s =
      (⟨(first ++ [.writeLine (idsLine jobs)]) ++ (jobsScript answers ⟨jobs.length, 0, 0⟩ jobs []).steps,
        (jobsScript answers ⟨jobs.length, 0, 0⟩ jobs []).ending⟩ : Script).shown s := by
  let window := c.concurrency.limit
  let rest := jobsScript answers ⟨jobs.length, 0, 0⟩ jobs (jobs.drop window)
  have hr : (⟨(jobs.take window).map (.askAnnotations ·.id) ++ rest.steps, rest.ending⟩ : Script).shown =
      (jobsScript answers ⟨jobs.length, 0, 0⟩ jobs []).shown := by
    funext t
    rw [Script.shown_calls isCall_of_mem_asks, jobsScript_shown]
  have h := Script.shown_append_congr hr (first ++ [.writeLine (idsLine jobs)]) s
  simpa [listedScript] using h

/-- Concurrency makes no difference to what a report shows. -/
theorem run_shown_concurrency (c : RunConfig) (k : Concurrency) (answers : Answers) (s : Sink) :
    (run { c with concurrency := k } answers s).shown = (run c answers s).shown := by
  change (script { c with concurrency := k } answers).shown s = (script c answers).shown s
  unfold script
  cases answers.jobs with
  | error cause => rfl
  | ok found =>
    cases found with
    | none =>
      have h := fun d => listedScript_shown d answers []
        [.note (listingNote c), .askJobs, .note (noJobsNote c)] s
      exact (h { c with concurrency := k }).trans (h c).symm
    | some jobs =>
      have h := fun d => listedScript_shown d answers jobs [.note (listingNote c), .askJobs] s
      exact (h { c with concurrency := k }).trans (h c).symm

end Concurrency

end AnnotationReport.Report
