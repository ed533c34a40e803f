import AnnotationReport.Proofs.Report.Playing
import AnnotationReport.Proofs.Text.Utf8
import Mathlib.Algebra.Ring.Nat

/-! # Reports with one call at a time

A report whose calls follow one another, in closed form. The jobs up to the first whose call fails are
written, each as its own lines; that job is the last one asked for, and its failure is the result.
-/
namespace AnnotationReport

def Answers.answered (answers : Answers) (job : Job) : Bool := (answers.annotations job.id).isOk

/-- The jobs of an answer; a failed call and an answer without jobs give none. -/
def Answers.listed (answers : Answers) : List Job :=
  match answers.jobs with
  | .ok (some jobs) => jobs
  | _ => []

/-- The annotations of a job; a failed call and a null answer give none. -/
def Answers.found (answers : Answers) (job : Job) : List Annotation :=
  match answers.annotations job.id with
  | .ok (some annotations) => annotations
  | _ => []

namespace Report

/-- The lines that stand for a job in a report. -/
def expectedLines (job : Job) : List Annotation → List String
  | [] => ["info: no annotations found for job " ++ toString job.id]
  | annotations => (annotations.filter (·.isReportable)).map fun a => String.ofList a.text

def expectedHeader (jobs : List Job) : String :=
  "run ids: [" ++ ", ".intercalate (jobs.map fun j => toString j.id) ++ "]"

/-- The bytes of lines, each with its line end. -/
def linesBytes (lines : List String) : List UInt8 :=
  (String.join (lines.map (· ++ "\n"))).toUTF8.data.toList

def Step.output : Step → List UInt8
  | writeLine line => Text.Utf8.encode (line ++ ['\n'])
  | _ => []

theorem output_asks (jobs : List Job) :
    (jobs.map (Step.askAnnotations ·.id)).flatMap Step.output = [] := by
  simp [List.flatMap_map, Step.output]

theorem play_unlimited (steps : List Step) (bytes : List UInt8) :
    play ⟨none, true, bytes⟩ steps =
      ⟨steps, ⟨none, true, bytes ++ steps.flatMap Step.output⟩, none⟩ := by
  induction steps generalizing bytes with
  | nil => simp
  | cons step r ih =>
    cases step <;> simp [play, Step.apply, Step.output, write_unlimited, Sink.flush, ih]

section Lines

theorem linesBytes_eq (lines : List String) :
    linesBytes lines = lines.flatMap fun l => Text.Utf8.encode (l.toList ++ ['\n']) := by
  rw [linesBytes, ← Text.Utf8.encode_toList]
  induction lines with
  | nil => rfl
  | cons l r ih =>
    have hend : (l ++ "\n").toList = l.toList ++ ['\n'] := String.toList_append
    simp only [List.map_cons, String.join_cons, String.toList_append (s := l ++ "\n"), hend,
      Text.Utf8.encode_append _ (String.toList _), ih, List.flatMap_cons]

theorem linesBytes_append (first second : List String) :
    linesBytes (first ++ second) = linesBytes first ++ linesBytes second := by
  simp only [linesBytes_eq, List.flatMap_append]

theorem output_writeLine (line : List Char) :
    Step.output (.writeLine line) = linesBytes [String.ofList line] := by
  simp only [Step.output, linesBytes_eq, List.flatMap_cons, List.flatMap_nil, List.append_nil,
    String.toList_ofList]

theorem toList_toString (n : Nat) : (toString n).toList = Text.decimal n := Nat.toList_repr

theorem ofList_idsLine (jobs : List Job) : String.ofList (idsLine jobs) = expectedHeader jobs := by
  have hcomma : ", ".toList = [',', ' '] := rfl
  have hclose : "]".toList = [']'] := rfl
  unfold idsLine expectedHeader
  rw [← String.toList_inj, String.toList_ofList, String.toList_append, String.toList_append,
    String.toList_intercalate, List.map_map, hcomma, hclose]
  simp only [Function.comp_def, toList_toString]

theorem ofList_noneLine (job : Job) :
    String.ofList (noneLine job) = "info: no annotations found for job " ++ toString job.id := by
  unfold noneLine
  rw [← String.toList_inj, String.toList_append, toList_toString, String.toList_ofList]

theorem output_jobSteps (job : Job) (annotations : List Annotation) :
    (jobSteps job annotations).flatMap Step.output = linesBytes (expectedLines job annotations) := by
  cases annotations with
  | nil => simp [jobSteps, expectedLines, output_writeLine, ofList_noneLine]
  | cons a r =>
    have hnote : Step.output (.note (jobNote job (a :: r).length)) = [] := rfl
    simp only [jobSteps, expectedLines, List.isEmpty_cons, Bool.false_eq_true, ↓reduceIte,
      List.flatMap_cons, hnote, List.nil_append]
    induction (a :: r).filter (·.isReportable) with
    | nil => simp [linesBytes_eq]
    | cons b t ih =>
      rw [List.map_cons, List.map_cons, List.flatMap_cons, ih, output_writeLine, ← linesBytes_append,
        List.singleton_append]

end Lines

section Jobs

theorem listed_getD {answers : Answers} {listing : Option (List Job)} (h : answers.jobs = .ok listing) :
    listing.getD [] = answers.listed := by
  cases listing <;> simp [Answers.listed, h]

theorem found_getD {answers : Answers} {job : Job} {found : Option (List Annotation)}
    (h : answers.annotations job.id = .ok found) : found.getD [] = answers.found job := by
  cases found <;> simp [Answers.found, h]

theorem answered_of_ok {answers : Answers} {job : Job} {found : Option (List Annotation)}
    (h : answers.annotations job.id = .ok found) : answers.answered job = true := by
  simp [Answers.answered, h, Except.isOk, Except.toBool]

theorem answered_of_error {answers : Answers} {job : Job} {cause : String}
    (h : answers.annotations job.id = .error cause) : answers.answered job = false := by
  simp [Answers.answered, h, Except.isOk, Except.toBool]

theorem output_jobsScript (answers : Answers) (summary : Summary) (jobs waiting : List Job) :
    (jobsScript answers summary jobs waiting).steps.flatMap Step.output =
      linesBytes ((jobs.takeWhile answers.answered).flatMap fun j => expectedLines j (answers.found j)) := by
  induction jobs generalizing summary waiting with
  | nil => simp [jobsScript, Step.output, linesBytes_eq]
  | cons job r ih =>
    cases h : answers.annotations job.id with
    | error cause => simp [jobsScript, h, answered_of_error h, linesBytes_eq]
    | ok found =>
      simp only [jobsScript, h, List.flatMap_append, output_jobSteps, ih, output_asks, found_getD h,
        List.takeWhile_cons, answered_of_ok h, ↓reduceIte, List.flatMap_cons, linesBytes_append,
        List.append_nil]

theorem ending_jobsScript (answers : Answers) (summary : Summary) (jobs waiting : List Job) :
    match jobs.dropWhile answers.answered with
    | [] => (jobsScript answers summary jobs waiting).ending = .ok
        ⟨summary.jobs, summary.annotations + (jobs.map fun j => (answers.found j).length).sum,
          summary.reported + (jobs.map fun j => ((answers.found j).filter (·.isReportable)).length).sum⟩
    | job :: _ => ∃ cause, answers.annotations job.id = .error cause ∧
        (jobsScript answers summary jobs waiting).ending = .error (jobFailure job cause) := by
  induction jobs generalizing summary waiting with
  | nil => simp [jobsScript]
  | cons job r ih =>
    cases h : answers.annotations job.id with
    | error cause =>
      simp only [List.dropWhile_cons, answered_of_error h, Bool.false_eq_true, ↓reduceIte]
      exact ⟨cause, h, by simp [jobsScript, h]⟩
    | ok found =>
      have hr := ih (summary.add (found.getD [])) (waiting.drop 1)
      simp only [List.dropWhile_cons, answered_of_ok h, ↓reduceIte, jobsScript, h]
      cases hd : r.dropWhile answers.answered with
      | nil =>
        simp only [hd] at hr
        rw [hr, found_getD h]
        simp only [Summary.add, List.map_cons, List.sum_cons, Nat.add_assoc]
      | cons failed _ =>
        simp only [hd] at hr
        exact hr

/-- Each job is asked for when the one before is written, up to the first failure. -/
theorem calls_jobsScript (answers : Answers) (summary : Summary) (jobs : List Job) :
    (jobs.take 1).map (.askAnnotations ·.id) ++ calls (jobsScript answers summary jobs (jobs.drop 1)).steps =
      (jobs.takeWhile answers.answered ++ (jobs.dropWhile answers.answered).take 1).map
        (.askAnnotations ·.id) := by
  induction jobs generalizing summary with
  | nil => rfl
  | cons job r ih =>
    cases h : answers.annotations job.id with
    | error cause => simp [jobsScript, h, answered_of_error h, calls]
    | ok found =>
      have hr := ih (summary.add (found.getD []))
      simp only [jobsScript, h, List.drop_succ_cons, List.drop_zero, calls_append, calls_jobSteps,
        calls_askAnnotations, List.nil_append, hr, List.takeWhile_cons, List.dropWhile_cons,
        answered_of_ok h, ↓reduceIte]
      simp

end Jobs

section Sequential

theorem outcome_unlimited (script : Script) (bytes : List UInt8) :
    script.outcome ⟨none, true, bytes⟩ =
      ⟨script.steps, ⟨none, true, bytes ++ script.steps.flatMap Step.output⟩, script.ending⟩ := by
  simp only [Script.outcome, play_unlimited]

theorem run_unlimited (c : RunConfig) (answers : Answers) :
    run c answers .unlimited =
      ⟨(script c answers).steps, ⟨none, true, (script c answers).steps.flatMap Step.output⟩,
        (script c answers).ending⟩ := by
  rw [run_eq_outcome]
  exact outcome_unlimited _ []

theorem output_listedScript (c : RunConfig) (answers : Answers) (jobs : List Job) :
    (listedScript c answers jobs).steps.flatMap Step.output =
      linesBytes (expectedHeader jobs ::
        (jobs.takeWhile answers.answered).flatMap fun j => expectedLines j (answers.found j)) := by
  simp only [listedScript, List.cons_append, List.flatMap_cons, List.flatMap_append, output_writeLine,
    ofList_idsLine, output_jobsScript, output_asks, List.nil_append, ← linesBytes_append]

theorem calls_listedScript (c : RunConfig) (answers : Answers) (jobs : List Job) :
    calls (listedScript { c with concurrency := .one } answers jobs).steps =
      (jobs.takeWhile answers.answered ++ (jobs.dropWhile answers.answered).take 1).map
        (.askAnnotations ·.id) := by
  have hline : calls [.writeLine (idsLine jobs)] = [] := rfl
  rw [← calls_jobsScript answers ⟨jobs.length, 0, 0⟩ jobs]
  simp only [listedScript, Concurrency.one, List.cons_append]
  rw [← List.singleton_append, calls_append, calls_append, hline, calls_askAnnotations, List.nil_append]

theorem script_opening (c : RunConfig) {answers : Answers} {listing : Option (List Job)}
    (h : answers.jobs = .ok listing) :
    ∃ opening, calls opening = [.askJobs] ∧ opening.flatMap Step.output = [] ∧
      script c answers = ⟨opening ++ (listedScript c answers (listing.getD [])).steps,
        (listedScript c answers (listing.getD [])).ending⟩ := by
  cases listing with
  | none =>
    refine ⟨[.note (listingNote c), .askJobs, .note (noJobsNote c)], rfl, rfl, ?_⟩
    simp [script, h]
  | some jobs =>
    refine ⟨[.note (listingNote c), .askJobs], rfl, rfl, ?_⟩
    simp [script, h]

end Sequential

/-- What a report does with one call at a time and a sink that takes everything, for all answers. A job
that occurs twice is written twice, and a job none of whose annotations is reportable leaves no line. -/
theorem run_one_at_a_time (c : RunConfig) (answers : Answers) (bytes : List UInt8) :
    let o := run { c with concurrency := .one } answers ⟨none, true, bytes⟩
    match answers.jobs with
    | .error cause =>
      o.result = .error ("Failed to get jobs of run " ++ c.runId ++ ": " ++ cause) ∧
        o.sink.bytes = bytes ∧ calls o.done = [.askJobs]
    | .ok listing =>
      let jobs := listing.getD []
      let written := jobs.takeWhile answers.answered
      o.sink.bytes = bytes ++ linesBytes
          (("run ids: [" ++ ", ".intercalate (jobs.map fun j => toString j.id) ++ "]") ::
            written.flatMap fun j => expectedLines j (answers.found j)) ∧
        match jobs.dropWhile answers.answered with
        | [] =>
          calls o.done = .askJobs :: jobs.map (.askAnnotations ·.id) ∧
            o.result = .ok ⟨jobs.length, (jobs.map fun j => (answers.found j).length).sum,
              (jobs.map fun j => ((answers.found j).filter (·.isReportable)).length).sum⟩
        | failed :: _ =>
          calls o.done = .askJobs :: (written ++ [failed]).map (.askAnnotations ·.id) ∧
            ∃ cause, answers.annotations failed.id = .error cause ∧
              o.result = .error
                ("Failed to get annotations for job " ++ toString failed.id ++ ": " ++ cause) := by
  intro o
  have ho : o = (script { c with concurrency := .one } answers).outcome ⟨none, true, bytes⟩ := rfl
  rw [outcome_unlimited] at ho
  cases h : answers.jobs with
  | error cause =>
    have hscript : script { c with concurrency := .one } answers =
        ⟨[.note (listingNote c), .askJobs], .error (jobsFailure c cause)⟩ := by
      simp only [script, h]
      rfl
    rw [hscript] at ho
    simp only [ho]
    exact ⟨rfl, List.append_nil bytes, rfl⟩
  | ok listing =>
    obtain ⟨opening, hcalls, houtput, hscript⟩ := script_opening { c with concurrency := .one } h
    have hending := ending_jobsScript answers ⟨(listing.getD []).length, 0, 0⟩ (listing.getD [])
      ((listing.getD []).drop 1)
    rw [hscript] at ho
    simp only [ho, calls_append, List.flatMap_append, hcalls, houtput, output_listedScript,
      calls_listedScript, List.nil_append]
    refine ⟨rfl, ?_⟩
    cases hd : (listing.getD []).dropWhile answers.answered with
    | nil =>
      simp only [hd, Nat.zero_add] at hending
      have ht : (listing.getD []).takeWhile answers.answered = listing.getD [] := by
        have := List.takeWhile_append_dropWhile (p := answers.answered) (l := listing.getD [])
        rwa [hd, List.append_nil] at this
      exact ⟨by simp [ht], hending⟩
    | cons failed r =>
      simp only [hd] at hending
      exact ⟨rfl, hending⟩

end Report
end AnnotationReport
