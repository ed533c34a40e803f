import AnnotationReport.Log.Filter
import AnnotationReport.Run
import AnnotationReport.Settings.Arguments

/-! # The command line

The whole program as a function of its words, its environment and a transport. The report goes to
standard output and everything else to standard error, log entries only if the filter lets them
pass.
-/
namespace AnnotationReport.CommandLine

structure Outcome where
  code : Nat
  stdout : List UInt8
  stderr : String
  requests : List Http.Request

def encode (text : String) : List UInt8 := Text.Utf8.encode text.toList

/-- What standard error shows of a remark. -/
def shown (f : Log.Filter) : Run.Remark → String
  | .plain text => text ++ "\n"
  | .entry e => if f.passes e then e.line ++ "\n" else ""

def stopped [Arguments.Advice] (env : Environment) : Arguments.Stop → Outcome
  | .display .help => ⟨Product.success, encode (Settings.Help.text env), "", []⟩
  | .display .version => ⟨Product.success, encode Settings.Help.versionText, "", []⟩
  | .refused e => ⟨Product.refused, [], e.text, []⟩

def run [Url.Idna] [Arguments.Advice] (transport : Http.Transport) (env : Environment) (words : List String) :
    Outcome :=
  match Arguments.read env words with
  | .error stop => stopped env stop
  | .ok settings =>
    let outcome := Run.ofSettings transport settings Sink.unlimited
    let filter := Log.Filter.ofVariable (env Log.Filter.variableName)
    ⟨outcome.code, outcome.sink.bytes, String.join (outcome.remarks.map (shown filter)),
      outcome.requests⟩

end AnnotationReport.CommandLine
