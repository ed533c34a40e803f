import AnnotationReport.Text.Digits

/-! # Routes

The path segments, below the base URL, of the two resources that a report reads.
-/
namespace AnnotationReport.Routes

def runJobs (owner repository runId : String) : List String :=
  ["repos", owner, repository, "actions", "runs", runId, "jobs"]

def annotations (owner repository : String) (checkRunId : Nat) : List String :=
  ["repos", owner, repository, "check-runs", String.ofList (Text.decimal checkRunId), "annotations"]

end AnnotationReport.Routes
