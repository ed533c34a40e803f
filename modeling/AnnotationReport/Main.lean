import AnnotationReport.CommandLine

/-! # The program

Reads the words and the environment, and writes the outcome. Requests go to the offline transport:
the program is built without a network, and a report ends at its first request.
-/
namespace AnnotationReport.CommandLine

/-- The variables that the program reads. -/
def variableNames : List String :=
  Log.Filter.variableName :: Setting.all.map Setting.variableName

def execute (words : List String) : IO UInt32 := do
  let given ← variableNames.mapM fun name => return (name, ← IO.getEnv name)
  let env : Environment := fun name => (given.lookup name).join
  let outcome := run Http.Transport.offline env words
  (← IO.getStdout).write ⟨outcome.stdout.toArray⟩
  IO.eprint outcome.stderr
  return outcome.code.toUInt32

end AnnotationReport.CommandLine

def main (words : List String) : IO UInt32 := AnnotationReport.CommandLine.execute words
