import AnnotationReport.Config.ApiUrl
import AnnotationReport.Config.Repository
import AnnotationReport.Settings.Basic
import AnnotationReport.Text.Excerpt
import AnnotationReport.Text.Quoted

/-! # The configuration of a report

Settings make a configuration when token, run and repository are given, the repository has its form
and the API's base URL can be read. The first of these that fails, in this order, is the error.
Texts are used as they are given, blanks included.
-/
namespace AnnotationReport

structure RunConfig where
  token : String
  runId : String
  repository : Repository
  apiUrl : Url
  concurrency : Concurrency
deriving DecidableEq

namespace RunConfig

inductive Error where
  | missing (s : Setting)
  | repository (value : String)
  | apiUrl (value : String) (cause : Url.Error)
deriving DecidableEq, Repr

def Error.message : Error → String
  | missing s => "The " ++ s.variableName ++ " environment variable is not set."
  | repository value =>
    "Invalid repository '" ++ value ++ "', expected the form 'owner/repo'."
  | apiUrl value cause => "Invalid API URL '" ++ value ++ "': " ++ cause.message

def require (s : Setting) (text : Option String) : Except Error String :=
  match Text.given? text with
  | some t => .ok t
  | none => .error (.missing s)

def readRepository (text : String) : Except Error Repository :=
  match Repository.ofText? text with
  | some r => .ok r
  | none => .error (.repository text)

def readApiUrl [Url.Idna] (text : String) : Except Error Url :=
  match ApiUrl.ofText text with
  | .ok url => .ok url
  | .error cause => .error (.apiUrl text cause)

def ofSettings [Url.Idna] (settings : Settings) : Except Error RunConfig := do
  let token ← require .token settings.token
  let runId ← require .runId settings.runId
  let repositoryText ← require .repository settings.repository
  let repository ← readRepository repositoryText
  let apiUrl ← readApiUrl ((Text.given? settings.apiUrl).getD ApiUrl.fallback)
  pure ⟨token, runId, repository, apiUrl, settings.concurrency⟩

/-- The configuration on one line, for people to read. The token is not shown. -/
def text (c : RunConfig) : String :=
  let quote := Text.Quoted.quote
  "RunConfig \x7b token: \"***\", run_id: " ++ quote c.runId ++
    ", repository: Repository \x7b owner: " ++ quote c.repository.owner ++
    ", name: " ++ quote c.repository.name ++ " \x7d, api_url: " ++ quote c.apiUrl.text ++
    ", concurrency: " ++ toString c.concurrency.limit ++ " \x7d"

end RunConfig
end AnnotationReport
