import AnnotationReport.CommandLine
import AnnotationReport.Proofs.Api.Addressing
import AnnotationReport.Proofs.Report.Sequential
import Mathlib.Data.List.TakeWhile

/-! # Exit status

How far a run of the program comes, read off its exit status: arguments that are refused, a display
that was asked for, settings that make no client, calls that fail, and a report that is complete. What
goes out before the end, requests and standard output, belongs to the stages that were passed.
-/
namespace AnnotationReport

namespace Report

/-- Without a list of jobs nothing is written, whatever the sink. -/
theorem run_of_jobs_error (c : RunConfig) {answers : Answers} {cause : String}
    (h : answers.jobs = .error cause) (s : Sink) :
    run c answers s = ⟨[.note (listingNote c), .askJobs], s, .error (jobsFailure c cause)⟩ := by
  simp [run, script, h, play, Step.apply]

end Report

namespace Remote

variable (r : Remote)

theorem told_error {α : Type} {call : Call α} {e : Api.Error} (h : call.result = .error e) :
    told call = .error e.chain := by
  simp [told, h, Except.mapError]

theorem told_eq_ok {α : Type} {call : Call α} {a : α} : told call = .ok a ↔ call.result = .ok a := by
  cases h : call.result <;> simp [told, h, Except.mapError]

theorem requests_eq (steps : List Report.Step) :
    steps.flatMap r.requests = (Report.calls steps).flatMap r.requests := by
  induction steps with
  | nil => rfl
  | cons step rest ih =>
    rw [List.flatMap_cons, ih, Report.calls, Report.calls]
    cases step <;> rfl

theorem requests_askJobs (steps : List Report.Step) :
    (.askJobs :: steps).flatMap r.requests = r.jobsCall.sent.toList ++ steps.flatMap r.requests :=
  List.flatMap_cons

theorem requests_asks (jobs : List Job) :
    (jobs.map (Report.Step.askAnnotations ·.id)).flatMap r.requests =
      jobs.flatMap fun job => (r.annotationsCall job.id).sent.toList :=
  List.flatMap_map _ _ _

/-- Every call succeeds. An answer without jobs lists none. -/
def Complete : Prop :=
  ∃ listing, r.jobsCall.result = .ok listing ∧
    ∀ job ∈ listing.getD [], (r.annotationsCall job.id).result.isOk

end Remote

namespace CommandLine

variable {transport : Http.Transport} {env : Environment} {words : List String}

/-- The words and the environment make settings, the settings a configuration and that a client. -/
def Prepares [Url.Idna] (transport : Http.Transport) (env : Environment) (words : List String)
    (r : Remote) : Prop :=
  r.transport = transport ∧
    ∃ settings, Arguments.read env words = .ok settings ∧
      RunConfig.ofSettings settings = .ok r.config ∧ Client.ofConfig transport r.config = .ok r.client

theorem Prepares.unique [Url.Idna] {r q : Remote} (h : Prepares transport env words r)
    (k : Prepares transport env words q) : r = q := by
  obtain ⟨ht, settings, hread, hconfig, hclient⟩ := h
  obtain ⟨kt, settings', kread, kconfig, kclient⟩ := k
  obtain rfl := Except.ok.inj (hread.symm.trans kread)
  have hc := Except.ok.inj (hconfig.symm.trans kconfig)
  rw [← hc, hclient] at kclient
  cases r
  cases q
  simp_all

/-- Three jobs are listed, and the first of them alone is answered. -/
def firstOnly : Http.Transport := .plain fun request =>
  let body := [("/repos/octo/hello/actions/runs/7/jobs",
      "\x7b\"jobs\":[\x7b\"id\":1\x7d,\x7b\"id\":2\x7d,\x7b\"id\":3\x7d]\x7d"),
    ("/repos/octo/hello/check-runs/1/annotations", "[]")].lookup (String.ofList request.url.path.text)
  .answered (body.elim ⟨404, none, none, []⟩ fun text => ⟨200, none, some (encode text), []⟩)

def sevenRemote : Remote :=
  let base : Url :=
    ⟨"http".toList, some ⟨.nobody, some (.name "api.test".toList), none⟩, false, .segments [[]], none, none⟩
  ⟨⟨base, [("authorization", "Bearer t"), ("accept", Api.mediaType), (Api.versionHeader, Api.version),
      ("user-agent", Product.userAgent)]⟩,
    ⟨"t", "7", ⟨"octo", "hello"⟩, base, .one⟩, firstOnly⟩

end CommandLine
end AnnotationReport
