import AnnotationReport.Proofs.Report.Room
import AnnotationReport.Proofs.Report.Window

/-! # What a run has to tell

What an API answers in one run, and what that run is to tell: that it lists the jobs, then of a missing
collection, then of each job whose annotations it reaches, and last of its counts if nothing fails. Each call
may be answered in its own way, also two calls for the same job.
-/
namespace AnnotationReport.Report

/-- What an API answers in one run: to the call for the jobs, and to the calls for annotations, by the place
of the job among the listed ones. -/
structure Replies where
  jobs : Except String (Option (List Job))
  annotations : Nat → Except String (Option (List Annotation))

namespace Replies

variable (r : Replies)

def answersAt (place : Nat) : Answers := ⟨r.jobs, fun _ => r.annotations place⟩

def listed : List Job := (r.answersAt 0).listed

def answered (place : Nat) : Bool := (r.annotations place).isOk

def found (place : Nat) : List Annotation :=
  match r.annotations place with
  | .ok (some annotations) => annotations
  | _ => []

/-- The bytes that come before those of the job at a place. -/
def writtenBefore (place : Nat) : List UInt8 :=
  linesBytes (expectedHeader r.listed ::
    (r.listed.zipIdx.take place).flatMap fun p => expectedLines p.1 (r.found p.2))

/-- Whether a run comes to the annotations of the job at a place: the calls for the jobs up to it do not
fail, and all that comes before fits into the sink. What becomes of its own lines makes no difference. -/
def Reached (s : Sink) (place : Nat) : Prop :=
  (∀ k ≤ place, r.answered k) ∧ s.Takes (r.writtenBefore place)

instance (s : Sink) (place : Nat) : Decidable (r.Reached s place) :=
  inferInstanceAs (Decidable ((∀ k ≤ place, r.answered k) ∧ s.Takes (r.writtenBefore place)))

def countsBefore (place : Nat) : Summary :=
  ⟨r.listed.length, ((List.range place).map fun k => (r.found k).length).sum,
    ((List.range place).map fun k => ((r.found k).filter (·.isReportable)).length).sum⟩

end Replies

/-- One run among others: what the API answers, the sink as the run finds it, and how it ends. -/
structure Episode where
  replies : Replies
  before : Sink
  result : Except String Summary

namespace Episode

variable (c : RunConfig) (e : Episode)

/-- All that a run tells. -/
def told : Trace :=
  let reached := e.replies.listed.zipIdx.filter fun p =>
    e.replies.Reached e.before p.2 && !(e.replies.found p.2).isEmpty
  [⟨.verbose, "Listing jobs of run " ++ c.runId ++ " in " ++ c.repository.text⟩] ++
    (match e.replies.jobs with
      | .ok none => [⟨.error, "Error: could not get jobs for repository " ++ c.repository.text⟩]
      | _ => []) ++
    (reached.map fun p => ⟨.verbose, "Job " ++ toString p.1.id ++ " (" ++ p.1.name.getD "unnamed" ++
      ") has " ++ toString (e.replies.found p.2).length ++ " annotation(s)"⟩) ++
    match e.result with
    | .ok summary => [⟨.info, "Inspected " ++ toString summary.jobs ++ " job(s): " ++
        toString summary.annotations ++ " annotation(s) fetched, " ++ toString summary.reported ++
        " reported"⟩]
    | .error _ => []

/-- No call, no write and no flush fails. -/
def Succeeds : Prop :=
  e.replies.jobs.isOk ∧ (∀ k < e.replies.listed.length, e.replies.answered k) ∧
    e.before.Takes (e.replies.writtenBefore e.replies.listed.length) ∧ e.before.canFlush

end Episode

section Texts

theorem decimal_eq_toString (n : Nat) : decimal n = toString n := by
  rw [← String.toList_inj, decimal, String.toList_ofList, toList_toString]

theorem jobNote_eq (job : Job) (count : Nat) :
    jobNote job count = ⟨.verbose, "Job " ++ toString job.id ++ " (" ++ job.name.getD "unnamed" ++
      ") has " ++ toString count ++ " annotation(s)"⟩ := by
  simp only [jobNote, decimal_eq_toString]

theorem summaryNote_eq (summary : Summary) :
    summaryNote summary = ⟨.info, "Inspected " ++ toString summary.jobs ++ " job(s): " ++
      toString summary.annotations ++ " annotation(s) fetched, " ++ toString summary.reported ++
      " reported"⟩ := by
  simp only [summaryNote, decimal_eq_toString]

end Texts

namespace Replies

variable {r : Replies} {s : Sink} {place : Nat} {job : Job}

theorem zipIdx_take_succ (h : r.listed[place]? = some job) :
    r.listed.zipIdx.take (place + 1) = r.listed.zipIdx.take place ++ [(job, place)] := by
  rw [List.take_add_one, List.getElem?_zipIdx, h]
  simp

theorem writtenBefore_succ (h : r.listed[place]? = some job) :
    r.writtenBefore (place + 1) =
      r.writtenBefore place ++ linesBytes (expectedLines job (r.found place)) := by
  rw [writtenBefore, zipIdx_take_succ h, List.flatMap_append, List.flatMap_singleton, ← List.cons_append,
    linesBytes_append, ← writtenBefore]

/-- What does not fit before a job does not fit before a later one either. -/
theorem takes_of_le {first : Nat} (hle : first ≤ place) (h : s.Takes (r.writtenBefore place)) :
    s.Takes (r.writtenBefore first) := by
  have hsplit : r.listed.zipIdx.take place =
      r.listed.zipIdx.take first ++ (r.listed.zipIdx.take place).drop first := by
    have htake := List.take_append_drop first (r.listed.zipIdx.take place)
    rwa [List.take_take, Nat.min_eq_left hle, eq_comm] at htake
  rw [writtenBefore, hsplit, List.flatMap_append, ← List.cons_append, linesBytes_append] at h
  exact (Sink.takes_append.mp h).1

theorem countsBefore_succ (place : Nat) :
    r.countsBefore (place + 1) = (r.countsBefore place).add (r.found place) := by
  simp [countsBefore, Summary.add, List.range_succ]

def toldBefore (r : Replies) (place : Nat) : Trace :=
  ((r.listed.zipIdx.take place).filter fun p => !(r.found p.2).isEmpty).map fun p =>
    jobNote p.1 (r.found p.2).length

theorem toldBefore_succ (h : r.listed[place]? = some job) :
    r.toldBefore (place + 1) = r.toldBefore place ++
      if (r.found place).isEmpty then [] else [jobNote job (r.found place).length] := by
  rw [toldBefore, zipIdx_take_succ h, List.filter_append, List.map_append, ← toldBefore]
  cases hempty : (r.found place).isEmpty <;> simp [hempty]

/-- If the jobs that are reached are the first ones, these are told of. -/
theorem told_reached (hreached : ∀ k < place, r.Reached s k)
    (hrest : ∀ k, place ≤ k → k < r.listed.length → ¬r.Reached s k) :
    (r.listed.zipIdx.filter fun p => r.Reached s p.2 && !(r.found p.2).isEmpty).map
        (fun p => jobNote p.1 (r.found p.2).length) = r.toldBefore place := by
  have hfirst : ∀ p ∈ r.listed.zipIdx.take place, p.2 < place := by
    intro p hp
    obtain ⟨i, hi, rfl⟩ := List.mem_take_iff_getElem.mp hp
    rw [List.getElem_zipIdx]
    omega
  have hlast : ∀ p ∈ r.listed.zipIdx.drop place, place ≤ p.2 ∧ p.2 < r.listed.length := by
    intro p hp
    obtain ⟨i, hi, rfl⟩ := List.mem_drop_iff_getElem.mp hp
    rw [List.length_zipIdx] at hi
    rw [List.getElem_zipIdx]
    omega
  have hnone : (r.listed.zipIdx.drop place).filter
      (fun p => r.Reached s p.2 && !(r.found p.2).isEmpty) = [] := by
    apply List.filter_eq_nil_iff.mpr
    intro p hp
    obtain ⟨hle, hlt⟩ := hlast p hp
    simp [hrest p.2 hle hlt]
  have hall : (r.listed.zipIdx.take place).filter (fun p => r.Reached s p.2 && !(r.found p.2).isEmpty) =
      (r.listed.zipIdx.take place).filter fun p => !(r.found p.2).isEmpty := by
    apply List.filter_congr
    intro p hp
    simp [hreached p.2 (hfirst p hp)]
  rw [toldBefore, ← hall, ← List.take_append_drop place r.listed.zipIdx, List.filter_append, hnone,
    List.append_nil, List.take_append_drop]

end Replies

section Told

variable {c : RunConfig} {r : Replies} {s : Sink} {place : Nat} {first steps : List Step}

theorem trace_of_prefix (h : first <+: steps) (hn : trace steps = []) : trace first = [] :=
  List.eq_nil_of_prefix_nil (hn ▸ h.filterMap Step.note?)

theorem trace_writes (annotations : List Annotation) :
    trace (annotations.map fun a => .writeLine a.text) = [] := by
  apply List.filterMap_eq_nil_iff.mpr
  intro step hs
  obtain ⟨a, _, rfl⟩ := List.mem_map.mp hs
  rfl

/-- A job is told of before its first line, so also when that is refused. -/
theorem trace_play_jobSteps (s : Sink) (job : Job) (annotations : List Annotation) :
    trace (play s (jobSteps job annotations)).done =
      if annotations.isEmpty then [] else [jobNote job annotations.length] := by
  cases hempty : annotations.isEmpty with
  | true =>
    have hnone : trace [.writeLine (noneLine job)] = [] := rfl
    simpa [jobSteps, hempty] using trace_of_prefix (prefix_play_done s _) hnone
  | false =>
    let writes := (annotations.filter (·.isReportable)).map fun a => Step.writeLine a.text
    have hnone : trace (play s writes).done = [] :=
      trace_of_prefix (prefix_play_done s writes) (trace_writes _)
    have hplay : (play s (jobSteps job annotations)).done =
        .note (jobNote job annotations.length) :: (play s writes).done := by
      simp [jobSteps, hempty, play, Step.apply, writes]
    rw [hplay]
    exact congrArg (jobNote job annotations.length :: ·) hnone

theorem trace_listing (c : RunConfig) (answers : Answers) :
    trace (FanOut.listing c answers) = [listingNote c] ++
      match answers.jobs with
      | .ok none => [noJobsNote c]
      | _ => [] := by
  unfold FanOut.listing
  cases answers.jobs with
  | error _ => rfl
  | ok found => cases found <;> rfl

theorem Episode.told_eq {result : Except String Summary} (hreached : ∀ k < place, r.Reached s k)
    (hrest : ∀ k, place ≤ k → k < r.listed.length → ¬r.Reached s k) :
    Episode.told c ⟨r, s, result⟩ =
      trace (FanOut.listing c (r.answersAt 0)) ++ r.toldBefore place ++
        match result with
        | .ok summary => [summaryNote summary]
        | .error _ => [] := by
  rw [← r.told_reached hreached hrest, trace_listing]
  simp only [Episode.told, jobNote_eq, summaryNote_eq]
  rfl

end Told

end AnnotationReport.Report
