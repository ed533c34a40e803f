import AnnotationReport.Proofs.Api.RequestUrls

/-! # The headers of requests

Every request carries four headers, whatever is asked for and however often. Three of them never change.
The fourth is the authorization, and the token is in it as long as the base URL has no credentials: those
are read with the URL, kept in the URL of every request, and outrank the token.
-/
namespace AnnotationReport.Client

variable {base : Url} {c : Client} {transport : Http.Transport} {url : Url} {request : Http.Request}

def sentFor (c : Client) (transport : Http.Transport) : Query → Array Http.Request
  | .jobs r runId => (c.jobsOfRun transport r runId).sent
  | .annotations r checkRunId => (c.annotationsOf transport r checkRunId).sent

/-- The requests of queries one after the other, each with what carries it. -/
def requests (c : Client) (queries : List (Http.Transport × Query)) : List Http.Request :=
  queries.flatMap fun q => (c.sentFor q.1 q.2).toList

/-- Whatever is sent is the client's request for a URL that differs from the base in its path only. -/
theorem request_of_mem {queries : List (Http.Transport × Query)} (h : request ∈ c.requests queries) :
    ∃ url, url = { c.base with path := url.path } ∧ request = c.request url := by
  obtain ⟨⟨transport, q⟩, -, hsent⟩ := List.mem_flatMap.mp h
  have hurl : ∃ url, c.urlOf q.segments = .ok url ∧ request = c.request url := by
    cases q with
    | jobs r runId =>
      obtain ⟨url, -, hurl, hrequest, -⟩ := mem_sent_get transport _ (Array.mem_toList_iff.mp hsent)
      exact ⟨url, hurl, hrequest⟩
    | annotations r checkRunId =>
      obtain ⟨url, -, hurl, hrequest, -⟩ := mem_sent_get transport _ (Array.mem_toList_iff.mp hsent)
      exact ⟨url, hurl, hrequest⟩
  obtain ⟨url, hurl, rfl⟩ := hurl
  exact ⟨url, eq_of_urlOf_eq_ok hurl, rfl⟩

theorem ofConfig_of_create {config : RunConfig} (h : create config.apiUrl config.token = .ok c) :
    ofConfig transport config =
      transport.refusal.elim (.ok c) fun causes => .error (.library causes) := by
  simp only [ofConfig, h, bind, Except.bind]
  cases transport.refusal <;> rfl

theorem ofConfig_eq_ok {config : RunConfig} : ofConfig transport config = .ok c ↔
    create config.apiUrl config.token = .ok c ∧ transport.refusal = none := by
  cases h : create config.apiUrl config.token with
  | error e => simp [ofConfig, h, bind, Except.bind]
  | ok client =>
    rw [ofConfig_of_create h]
    cases transport.refusal <;> simp

theorem create_eq_ok {token : String} (h : create base token = .ok c) :
    c.base = base ∧ c.headers = [("authorization", "Bearer " ++ token), ("accept", Api.mediaType),
      (Api.versionHeader, Api.version), ("user-agent", Product.userAgent)] := by
  unfold create headersFor? at h
  split at h
  · rename_i headers hheaders
    obtain rfl := Except.ok.inj h
    split at hheaders
    · exact ⟨rfl, (Option.some.inj hheaders).symm⟩
    · cases hheaders
  · cases h

theorem create_eq_error {token : String} {e : Api.Error} (h : create base token = .error e) : e = .token := by
  unfold create at h
  split at h
  · cases h
  · exact (Except.error.inj h).symm

/-- The authorization for a URL: its credentials, or the token where it has none. -/
def authorization (credentials : Url.Credentials) (token : String) : String :=
  match login? credentials with
  | none => "Bearer " ++ token
  | some (user, password) =>
    "Basic " ++ String.ofList (Text.Base64.encode (Text.Utf8.encode (user ++ ':' :: password.getD [])))

theorem authorization_eq_bearer_iff (credentials : Url.Credentials) (token : String) :
    authorization credentials token = "Bearer " ++ token ↔ login? credentials = none := by
  unfold authorization
  cases login? credentials with
  | none => exact iff_of_true rfl rfl
  | some login =>
    refine iff_of_false (fun h => ?_) (Option.some_ne_none _)
    have hchars := congrArg String.toList h
    simp at hchars

theorem headers_request {token : String} (h : create base token = .ok c)
    (hurl : url = { c.base with path := url.path }) :
    (c.request url).headers = [("authorization", authorization base.credentials token),
      ("accept", Api.mediaType), (Api.versionHeader, Api.version), ("user-agent", Product.userAgent)] := by
  obtain ⟨rfl, hheaders⟩ := create_eq_ok h
  have hcredentials : url.credentials = c.base.credentials := by rw [hurl]; rfl
  simp only [request, loginHeaders, authorization, hcredentials, hheaders]
  cases login? c.base.credentials with
  | none => rfl
  | some login => rfl

/-- The headers that a configuration's client gives to each of its requests, in any sequence of calls. The
authorization is the token exactly when the API's base URL has no credentials that can be decoded. -/
theorem requests_headers {config : RunConfig} {c : Client} (h : ofConfig transport config = .ok c)
    (queries : List (Http.Transport × Query)) :
    ∀ request ∈ c.requests queries,
      request.verb = "GET" ∧
        request.headers = [("authorization", authorization config.apiUrl.credentials config.token),
          ("accept", "application/vnd.github+json"), ("x-github-api-version", "2022-11-28"),
          ("user-agent", "ci-annotations/0.1.0")] ∧
        (request.headers.lookup "authorization" = some ("Bearer " ++ config.token) ↔
          login? config.apiUrl.credentials = none) := by
  intro request hrequest
  obtain ⟨url, hurl, rfl⟩ := request_of_mem hrequest
  have hheaders := headers_request (ofConfig_eq_ok.mp h).1 hurl
  refine ⟨rfl, hheaders, ?_⟩
  rw [hheaders, List.lookup_cons_self, Option.some.injEq, authorization_eq_bearer_iff]

def settingsAt (apiUrl : String) : Settings :=
  ⟨some "t0ken", some "42", some "octo/hello", some apiUrl, .one⟩

def baseWith (credentials : Url.Credentials) : Url :=
  ⟨"http".toList, some ⟨credentials, some (.name "api.test".toList), none⟩, false, .segments [[]], none, none⟩

def configWith (credentials : Url.Credentials) : RunConfig :=
  ⟨"t0ken", "42", ⟨"octo", "hello"⟩, baseWith credentials, .one⟩

/-- A user name that is no text when decoded does not count. -/
def noText : Url.Credentials := ⟨"%FF".toList, none⟩

def silent : Http.Transport := .plain fun _ => .unanswered []

theorem requests_headers_no_text :
    RunConfig.ofSettings (settingsAt "http://%FF@api.test") = .ok (configWith noText) ∧
      ∃ c, ofConfig silent (configWith noText) = .ok c ∧
        ∀ request ∈ c.requests [(silent, .jobs ⟨"octo", "hello"⟩ "42"),
            (silent, .annotations ⟨"octo", "hello"⟩ 7)],
          request.headers.lookup "authorization" = some "Bearer t0ken" := by
  obtain ⟨c, hc⟩ : ∃ c, ofConfig silent (configWith noText) = .ok c := ⟨_, rfl⟩
  refine ⟨rfl, c, hc, fun request hrequest => ?_⟩
  obtain ⟨-, -, hbearer⟩ := requests_headers hc _ request hrequest
  exact hbearer.mpr rfl

/-- With a user and a password in the base URL the token is not sent. -/
theorem login_outranks_token :
    RunConfig.ofSettings (settingsAt "http://u:p@api.test") = .ok (configWith ⟨['u'], some ['p']⟩) ∧
      ∃ c request, ofConfig silent (configWith ⟨['u'], some ['p']⟩) = .ok c ∧
        request ∈ c.requests [(silent, .jobs ⟨"octo", "hello"⟩ "42")] ∧
        request.headers.lookup "authorization" = some "Basic dTpw" ∧
        request.headers.lookup "authorization" ≠ some "Bearer t0ken" := by
  refine ⟨rfl, _, _, rfl, List.mem_cons_self, rfl, by decide⟩

end AnnotationReport.Client
