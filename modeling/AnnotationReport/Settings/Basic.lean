import AnnotationReport.Settings.Concurrency

/-! # Settings

What a user may set, by a flag or by a variable of the environment. Nothing is required here;
whether the settings make a configuration is judged later.
-/
namespace AnnotationReport

/-- The variables of the environment that are set, with their texts. -/
abbrev Environment := String → Option String

inductive Setting where
  | token
  | runId
  | repository
  | apiUrl
  | concurrency
deriving DecidableEq, Repr

namespace Setting

/-- All settings, in the order of the help text. -/
def all : List Setting := [token, runId, repository, apiUrl, concurrency]

def variableName : Setting → String
  | token => "GH_TOKEN"
  | runId => "workflow_id"
  | repository => "GITHUB_REPOSITORY"
  | apiUrl => "GITHUB_API_URL"
  | concurrency => "ANNOTATIONS_CONCURRENCY"

def flagName : Setting → String
  | token => "token"
  | runId => "run-id"
  | repository => "repository"
  | apiUrl => "api-url"
  | concurrency => "concurrency"

def placeholder : Setting → String
  | token => "TOKEN"
  | runId => "RUN_ID"
  | repository => "REPOSITORY"
  | apiUrl => "API_URL"
  | concurrency => "CONCURRENCY"

def usage (s : Setting) : String := "--" ++ s.flagName ++ " <" ++ s.placeholder ++ ">"

end Setting

structure Settings where
  token : Option String
  runId : Option String
  repository : Option String
  apiUrl : Option String
  concurrency : Concurrency
deriving DecidableEq

end AnnotationReport
