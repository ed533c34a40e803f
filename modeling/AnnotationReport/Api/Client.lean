import AnnotationReport.Api.Annotation
import AnnotationReport.Api.Http
import AnnotationReport.Api.Job
import AnnotationReport.Api.Routes
import AnnotationReport.Config.Basic
import AnnotationReport.Product
import AnnotationReport.Text.Base64

/-! # The API client

The two calls of a report over HTTP. A call sends at most one request. What it reads is the whole
body of an answer with a status of success; any other status is an error that shows the beginning of
the body. Empty and dot segments are refused before anything is sent, since they would address
another resource.
-/
namespace AnnotationReport

namespace Api

def mediaType : String := "application/vnd.github+json"

def versionHeader : String := "x-github-api-version"

def version : String := "2022-11-28"

/-- How many characters of a body an error shows. -/
def shownBody : Nat := 512

/-- The causes are those that the libraries give. -/
inductive Error where
  | token
  | library (causes : List String)
  | segment (bad : String) (segments : List String)
  | noBase (url : Url)
  | unsent (url : Url) (causes : List String)
  | status (url : Url) (status : Nat) (body : String)
  | body (url : Url) (causes : List String)
deriving DecidableEq, Repr

def statusMessage (url : String) (status : Nat) (body : String) : String :=
  "GET " ++ url ++ " returned HTTP " ++ Http.statusText status ++ ": " ++ body

def Error.message : Error → String
  | token => "Access token contains characters not allowed in a header"
  | library _ => "Failed to build HTTP client"
  | segment bad segments => "Invalid path segment '" ++ bad ++ "' in request for " ++
      String.intercalate "/" segments
  | noBase url => "API URL '" ++ url.text ++ "' cannot be a base"
  | unsent url _ => "Failed to send GET " ++ url.text
  | status url code shown => statusMessage url.text code shown
  | body url _ => "Failed to parse response of GET " ++ url.text

def Error.causes : Error → List String
  | token => ["failed to parse header value"]
  | library causes | unsent _ causes | body _ causes => causes
  | segment _ _ | noBase _ | status _ _ _ => []

/-- The message with the causes below it. -/
def Error.chain (e : Error) : String := String.intercalate ": " (e.message :: e.causes)

end Api

structure Client where
  base : Url
  headers : Http.Headers

/-- What became of a call: the URL it asked for, if it came to that, the requests it sent, and its
result. -/
structure Call (α : Type) where
  asked : Option Url
  sent : Array Http.Request
  result : Except Api.Error α

namespace Client

/-- The bytes that a header value may have: tabs, and all but controls. -/
def allowedInHeader (b : UInt8) : Bool := b = 9 || (32 ≤ b.toNat && b.toNat != 127)

def headersFor? (token : String) : Option Http.Headers :=
  if (Text.Utf8.encode token.toList).all allowedInHeader then
    some [("authorization", "Bearer " ++ token), ("accept", Api.mediaType),
      (Api.versionHeader, Api.version), ("user-agent", Product.userAgent)]
  else none

def create (base : Url) (token : String) : Except Api.Error Client :=
  match headersFor? token with
  | some headers => .ok ⟨base, headers⟩
  | none => .error .token

/-- The client for a configuration; the library is set up once the headers stand. -/
def ofConfig (transport : Http.Transport) (config : RunConfig) : Except Api.Error Client := do
  let client ← create config.apiUrl config.token
  match transport.refusal with
  | none => pure client
  | some causes => throw (.library causes)

/-- A segment that does not stand for itself in a path. -/
def isRefused (s : String) : Bool := s = "" || s = "." || s = ".."

def urlOf (c : Client) (segments : List String) : Except Api.Error Url :=
  match segments.find? isRefused with
  | some bad => .error (.segment bad segments)
  | none =>
    match c.base.extend? (segments.map String.toList) with
    | some url => .ok url
    | none => .error (.noBase c.base)

def plain? (text : List Char) : Option (List Char) := Text.Utf8.decode? (Url.decode text)

/-- The credentials in a URL as a user name and a password, if there are any. -/
def login? (credentials : Url.Credentials) : Option (List Char × Option (List Char)) :=
  (plain? credentials.user).bind fun user =>
    let password := credentials.password.bind plain?
    if user.isEmpty && password.isNone then none else some (user, password)

def loginHeaders (url : Url) : Http.Headers :=
  match login? url.credentials with
  | none => []
  | some (user, password) =>
    let text := user ++ ':' :: password.getD []
    [("authorization",
      "Basic " ++ String.ofList (Text.Base64.encode (Text.Utf8.encode text)))]

/-- The request for a URL. Credentials in the URL outrank the headers of every request. -/
def request (c : Client) (url : Url) : Http.Request :=
  ⟨Http.Request.method, url, (loginHeaders url).filled c.headers⟩

section Get

variable {α : Type} (decoder : Http.Decoder) (read? : List UInt8 → Option α)

def valueOf (url : Url) (response : Http.Response) : Except Api.Error α :=
  if response.isSuccess then
    match response.body.bind read? with
    | some value => .ok value
    | none => .error (.body url response.causes)
  else .error (.status url response.status (Text.excerpt (response.text decoder) Api.shownBody))

def resultOf (url : Url) : Http.Reply → Except Api.Error α
  | .unsent causes | .unanswered causes => .error (.unsent url causes)
  | .answered response => valueOf decoder read? url response

/-- Asks for what lies under segments, in whatever way requests are sent. -/
def exchange {m : Type → Type} [Monad m] (c : Client) (send : Http.Request → m Http.Reply)
    (segments : List String) : m (Except Api.Error α) :=
  match c.urlOf segments with
  | .error e => pure (.error e)
  | .ok url => do
    let reply ← send (c.request url)
    pure (resultOf decoder read? url reply)

end Get

def get {α : Type} (c : Client) (transport : Http.Transport) (read? : List UInt8 → Option α)
    (segments : List String) : Call α :=
  let (result, sent) := Id.run ((c.exchange transport.decoder read? transport.record segments).run #[])
  ⟨(c.urlOf segments).toOption, sent, result⟩

/-- The jobs of a workflow run; `none` when the answer has no collection of jobs. -/
def jobsOfRun (c : Client) (transport : Http.Transport) (r : Repository) (runId : String) :
    Call (Option (List Job)) :=
  c.get transport Job.readAnswer? (Routes.runJobs r.owner r.name runId)

/-- The annotations of a check run; `none` when the answer is null. -/
def annotationsOf (c : Client) (transport : Http.Transport) (r : Repository) (checkRunId : Nat) :
    Call (Option (List Annotation)) :=
  c.get transport Annotation.readAnswer? (Routes.annotations r.owner r.name checkRunId)

end Client
end AnnotationReport
