import AnnotationReport.Product
import AnnotationReport.Settings.Basic
import AnnotationReport.Text.Plain

/-! # Help and version

The help text lists the flags in two columns, flags in bold. After the description of a flag stands
its variable with the text that the environment gives it, but for the token, which is never shown.
Where the text is shown plain, what is left out begins with any escape sequence of the environment
and ends, at the latest, where the next flag turns bold.
-/
namespace AnnotationReport.Settings.Help

def about : String := "Print the warning and error annotations of a workflow run's jobs"

def synopsis : String := "Usage: " ++ Product.command

def usage : String := synopsis ++ " [OPTIONS]"

def description : Setting → String
  | .token => "API access token"
  | .runId => "Workflow run id whose jobs are inspected"
  | .repository => "Repository in \x60owner/repo\x60 form"
  | .apiUrl => "REST API base URL"
  | .concurrency =>
    "Maximum number of annotation requests in flight. Output order does not depend on this value"

def column : Nat := 35

def margin : String := String.ofList (List.replicate column ' ')

def bold (text : String) : String := "\x1b[1m" ++ text ++ "\x1b[0m"

/-- The left column of a line: an indent, a flag in bold, and what follows it, filled up with
spaces. -/
def label (indent flag rest : String) : String :=
  let width := indent.length + flag.length + rest.length
  indent ++ bold flag ++ rest ++ String.ofList (List.replicate (column - width) ' ')

def inColumn (text : String) : String :=
  String.ofList (text.toList.flatMap fun c => if c = '\n' then '\n' :: margin.toList else [c])

/-- The variable of a setting and what the environment says of it. -/
def variableNote (env : Environment) (s : Setting) : String :=
  let value := if s = .token then "" else "=" ++ (env s.variableName).getD ""
  "[env: " ++ s.variableName ++ value ++ "]"

def defaultNote : Setting → String
  | .concurrency => " [default: 1]"
  | _ => ""

def settingLine (env : Environment) (s : Setting) : String :=
  label "      " ("--" ++ s.flagName) (" <" ++ s.placeholder ++ ">") ++
    inColumn (description s ++ " " ++ variableNote env s ++ defaultNote s)

def styledText (env : Environment) : String :=
  let lines := [about, "", usage, "", "Options:"] ++ Setting.all.map (settingLine env) ++
    [label "  " "-h" ", --help" ++ "Print help", label "  " "-V" ", --version" ++ "Print version"]
  String.join (lines.map (· ++ "\n"))

def text (env : Environment) : String := Text.Plain.ofText (styledText env)

def versionText : String := Product.command ++ " " ++ Product.version ++ "\n"

end AnnotationReport.Settings.Help
