import AnnotationReport.Api.Client
import AnnotationReport.Log.Entry
import AnnotationReport.Report.Script

/-! # Reports over HTTP

A report whose answers come from a client. Each step that asks for something stands for a call, and
the call for the request it sends; notes and calls leave log entries.
-/
namespace AnnotationReport

/-- A client at work on one configuration. -/
structure Remote where
  client : Client
  config : RunConfig
  transport : Http.Transport

namespace Remote

def jobsCall (r : Remote) : Call (Option (List Job)) :=
  r.client.jobsOfRun r.transport r.config.repository r.config.runId

def annotationsCall (r : Remote) (job : Nat) : Call (Option (List Annotation)) :=
  r.client.annotationsOf r.transport r.config.repository job

/-- A failed call is told with all its causes. -/
def told {α : Type} (call : Call α) : Except String α := call.result.mapError Api.Error.chain

def answers (r : Remote) : Answers :=
  ⟨told r.jobsCall, fun job => told (r.annotationsCall job)⟩

def report (r : Remote) (s : Sink) : Report.Outcome := Report.run r.config r.answers s

/-- The requests of a step. -/
def requests (r : Remote) : Report.Step → List Http.Request
  | .askJobs => r.jobsCall.sent.toList
  | .askAnnotations job => (r.annotationsCall job).sent.toList
  | _ => []

def clientTarget : String := "annotations_reporter::checks_client"

def traceTarget : String := "annotations_sdk::trace"

/-- Detail is of use only to those who look for faults. -/
def levelOf : Trace.Level → Log.Level
  | .info => .info
  | .verbose => .debug
  | .error => .error

def askEntry (url : Url) : Log.Entry := ⟨.debug, clientTarget, "GET " ++ url.text⟩

/-- The log entries of a call: its own, and those of the transport. -/
def callEntries (r : Remote) {α : Type} (call : Call α) : List Log.Entry :=
  call.asked.elim [] fun url => askEntry url :: r.transport.events (r.client.request url)

/-- The log entries of a step. -/
def entries (r : Remote) : Report.Step → List Log.Entry
  | .note n => [⟨levelOf n.level, traceTarget, n.message⟩]
  | .askJobs => r.callEntries r.jobsCall
  | .askAnnotations job => r.callEntries (r.annotationsCall job)
  | _ => []

end Remote
end AnnotationReport
