import AnnotationReport.Report.Remote

/-! # A run of the program

From settings to an exit status. A configuration that cannot be made, a client that cannot be made
and a report that is given up end a run early, and nothing is sent before the configuration stands.
-/
namespace AnnotationReport

namespace Run

/-- What a run tells beside its report. -/
inductive Remark where
  | plain (text : String)
  | entry (e : Log.Entry)
deriving DecidableEq, Repr

structure Outcome where
  code : Nat
  sink : Sink
  remarks : List Remark
  requests : List Http.Request

def target : String := "annotations_reporter::app"

def greeting : Log.Entry :=
  ⟨.debug, target,
    Product.command ++ " " ++ Product.version ++ " (commit " ++ Product.commit ++ ")"⟩

def summaryText (s : Report.Summary) : String :=
  "ReportSummary \x7b jobs: " ++ Report.decimal s.jobs ++ ", annotations: " ++
    Report.decimal s.annotations ++ ", reported: " ++ Report.decimal s.reported ++ " \x7d"

/-- The last entry of a report. -/
def farewell : Except String Report.Summary → Log.Entry
  | .ok s => ⟨.debug, target, "Report finished: " ++ summaryText s⟩
  | .error chain => ⟨.error, target, "Report failed: " ++ chain⟩

def exitCode : Except String Report.Summary → Nat
  | .ok _ => Product.success
  | .error _ => Product.terminated

def givenUp (s : Sink) (remark : Remark) : Outcome :=
  ⟨Product.terminated, s, [.entry greeting, remark], []⟩

/-- The report of a client. -/
def ofRemote (r : Remote) (s : Sink) : Outcome :=
  let report := r.report s
  ⟨exitCode report.result, report.sink,
    .entry greeting :: (report.done.flatMap r.entries).map .entry ++
      [.entry (farewell report.result)],
    report.done.flatMap r.requests⟩

def ofConfig (transport : Http.Transport) (config : RunConfig) (s : Sink) : Outcome :=
  match Client.ofConfig transport config with
  | .error e =>
    givenUp s (.entry ⟨.error, target, "Failed to create API client: " ++ e.chain⟩)
  | .ok client => ofRemote ⟨client, config, transport⟩ s

def ofSettings [Url.Idna] (transport : Http.Transport) (settings : Settings) (s : Sink) : Outcome :=
  match RunConfig.ofSettings settings with
  | .error e => givenUp s (.plain ("Error: " ++ e.message))
  | .ok config => ofConfig transport config s

end Run
end AnnotationReport
