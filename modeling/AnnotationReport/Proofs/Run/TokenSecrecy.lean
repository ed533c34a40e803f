import AnnotationReport.CommandLine
import AnnotationReport.Proofs.Api.RequestHeaders
import Mathlib.Data.List.Basic

/-! # What the token reaches

Two runs that differ in the token only are told apart by nothing but the authorization of their requests.
The settings are the same but for the token, so is the configuration; the clients send the same requests
but for one header, and get the same answers from whatever does not look at that header. Everything that is
shown is made of these. Among the arguments and in the help text the environment's token is not shown either.
-/
namespace AnnotationReport

/-- A request without its authorization. -/
def Http.Request.bare (request : Http.Request) : Http.Request :=
  { request with headers := request.headers.filter (·.1 ≠ "authorization") }

/-- A transport that answers and tells the same whatever the authorization of a request. -/
structure Http.Transport.Blind (transport : Http.Transport) : Prop where
  send : ∀ {request request' : Http.Request}, request.bare = request'.bare →
    transport.send request = transport.send request'
  events : ∀ {request request' : Http.Request}, request.bare = request'.bare →
    transport.events request = transport.events request'

namespace Client

variable {c c' : Client} {transport : Http.Transport}

/-- Clients that differ in the authorization of their requests at most. -/
structure Alike (c c' : Client) : Prop where
  base : c.base = c'.base
  headers : c.headers.filter (·.1 ≠ "authorization") = c'.headers.filter (·.1 ≠ "authorization")

theorem Alike.request (h : Alike c c') (url : Url) : (c.request url).bare = (c'.request url).bare := by
  simp only [Client.request, Http.Request.bare, Http.Headers.filled, List.filter_append]
  rw [List.filter_comm, h.headers, List.filter_comm]

def bareCall {α : Type} (call : Call α) : Call α := { call with sent := call.sent.map Http.Request.bare }

theorem Alike.get {α : Type} (h : Alike c c') (ht : transport.Blind) (read? : List UInt8 → Option α)
    (segments : List String) : bareCall (c.get transport read? segments) =
      bareCall (c'.get transport read? segments) := by
  have hsame : c.urlOf segments = c'.urlOf segments := by simp only [urlOf, h.base]
  cases hurl : c'.urlOf segments with
  | error e => rw [get_of_error _ _ hurl, get_of_error _ _ (hsame.trans hurl)]
  | ok url =>
    have hrequest := h.request url
    rw [get_of_url _ _ hurl, get_of_url _ _ (hsame.trans hurl), ht.send hrequest]
    cases (transport.send (c'.request url)).isSent <;> simp [bareCall, hrequest]

end Client

namespace RunConfig

def withToken (token : String) (c : RunConfig) : RunConfig := { c with token := token }

theorem text_withToken (token : String) (c : RunConfig) : (c.withToken token).text = c.text := rfl

/-- Settings with one token or another make configurations with one or the other, or none for the same
reason. -/
theorem ofSettings_withToken [Url.Idna] (settings : Settings) {token token' : String} (h : token ≠ "")
    (h' : token' ≠ "") :
    ofSettings { settings with token := some token' } =
      (ofSettings { settings with token := some token }).map (withToken token') := by
  have hgiven : ∀ {t : String}, t ≠ "" → require .token (some t) = .ok t := by
    intro t ht
    have hempty : t.isEmpty = false := by simpa using ht
    simp [require, Text.given?, Option.filter, hempty]
  simp only [ofSettings, hgiven h, hgiven h', bind, Except.bind]
  cases require .runId settings.runId with
  | error e => rfl
  | ok runId =>
    cases require .repository settings.repository with
    | error e => rfl
    | ok text =>
      dsimp only
      cases readRepository text with
      | error e => rfl
      | ok repository =>
        dsimp only
        cases readApiUrl ((Text.given? settings.apiUrl).getD ApiUrl.fallback) with
        | error e => rfl
        | ok apiUrl => rfl

end RunConfig

namespace Remote

variable {c c' : Client} {transport : Http.Transport} (h : c.Alike c') (ht : transport.Blind)
  (config : RunConfig) (token : String)
include h ht

theorem calls_alike :
    Client.bareCall (jobsCall ⟨c, config, transport⟩) =
        Client.bareCall (jobsCall ⟨c', config.withToken token, transport⟩) ∧
      ∀ job, Client.bareCall (annotationsCall ⟨c, config, transport⟩ job) =
        Client.bareCall (annotationsCall ⟨c', config.withToken token, transport⟩ job) :=
  ⟨h.get ht _ _, fun _ => h.get ht _ _⟩

theorem answers_alike :
    answers ⟨c, config, transport⟩ = answers ⟨c', config.withToken token, transport⟩ := by
  obtain ⟨hjobs, hannotations⟩ := calls_alike h ht config token
  have htold : ∀ {α : Type} {call call' : Call α}, Client.bareCall call = Client.bareCall call' →
      told call = told call' := by
    intro α call call' hcall
    have hresult := congrArg Call.result hcall
    simp only [Client.bareCall] at hresult
    rw [told, told, hresult]
  simp only [answers, htold hjobs, funext fun job => htold (hannotations job)]

theorem entries_alike : entries ⟨c, config, transport⟩ =
    entries ⟨c', config.withToken token, transport⟩ := by
  obtain ⟨hjobs, hannotations⟩ := calls_alike h ht config token
  have hentries : ∀ {α : Type} {call call' : Call α}, Client.bareCall call = Client.bareCall call' →
      callEntries ⟨c, config, transport⟩ call =
        callEntries ⟨c', config.withToken token, transport⟩ call' := by
    intro α call call' hcall
    have hasked := congrArg Call.asked hcall
    simp only [Client.bareCall] at hasked
    have hevents : ∀ url, transport.events (c.request url) = transport.events (c'.request url) :=
      fun url => ht.events (h.request url)
    simp only [callEntries, hasked, hevents]
  funext step
  cases step with
  | askJobs => exact hentries hjobs
  | askAnnotations job => exact hentries (hannotations job)
  | _ => rfl

theorem requests_alike (step : Report.Step) :
    (requests ⟨c, config, transport⟩ step).map Http.Request.bare =
      (requests ⟨c', config.withToken token, transport⟩ step).map Http.Request.bare := by
  obtain ⟨hjobs, hannotations⟩ := calls_alike h ht config token
  have hsent : ∀ {α : Type} {call call' : Call α}, Client.bareCall call = Client.bareCall call' →
      call.sent.toList.map Http.Request.bare = call'.sent.toList.map Http.Request.bare := by
    intro α call call' hcall
    simpa only [Client.bareCall, Array.toList_map] using congrArg (·.sent.toList) hcall
  cases step with
  | askJobs => exact hsent hjobs
  | askAnnotations job => exact hsent (hannotations job)
  | _ => rfl

end Remote

namespace Run

def Outcome.bare (o : Outcome) : Outcome := { o with requests := o.requests.map Http.Request.bare }

theorem Outcome.bare_eq_iff {o o' : Outcome} : o.bare = o'.bare ↔
    o.code = o'.code ∧ o.sink = o'.sink ∧ o.remarks = o'.remarks ∧
      o.requests.map Http.Request.bare = o'.requests.map Http.Request.bare := by
  simp only [bare, Outcome.mk.injEq]

theorem ofRemote_alike {c c' : Client} {transport : Http.Transport} (h : c.Alike c') (ht : transport.Blind)
    (config : RunConfig) (token : String) (s : Sink) :
    (ofRemote ⟨c, config, transport⟩ s).bare =
      (ofRemote ⟨c', config.withToken token, transport⟩ s).bare := by
  have hreport : Remote.report ⟨c, config, transport⟩ s =
      Remote.report ⟨c', config.withToken token, transport⟩ s := by
    rw [Remote.report, Remote.answers_alike h ht config token]
    rfl
  have hentries := Remote.entries_alike h ht config token
  have hrequests := funext (Remote.requests_alike h ht config token)
  simp only [ofRemote, Outcome.bare, hreport, hentries, List.map_flatMap, hrequests]

/-- A token that a client can be made with. -/
structure Usable (token : String) : Prop where
  given : token ≠ ""
  accepted (base : Url) : ∃ c, Client.create base token = .ok c

theorem Usable.exists_clients {token token' : String} (h : Usable token) (h' : Usable token') (base : Url) :
    ∃ c c', Client.create base token = .ok c ∧ Client.create base token' = .ok c' ∧ c.Alike c' := by
  obtain ⟨c, hc⟩ := h.accepted base
  obtain ⟨c', hc'⟩ := h'.accepted base
  obtain ⟨hbase, hheaders⟩ := Client.create_eq_ok hc
  obtain ⟨hbase', hheaders'⟩ := Client.create_eq_ok hc'
  refine ⟨c, c', hc, hc', hbase.trans hbase'.symm, ?_⟩
  rw [hheaders, hheaders']
  rfl

/-- Runs that differ in a usable token differ in the authorization of their requests at most. -/
theorem ofSettings_alike [Url.Idna] {transport : Http.Transport} (ht : transport.Blind) (settings : Settings)
    {token token' : String} (h : Usable token) (h' : Usable token') (s : Sink) :
    (ofSettings transport { settings with token := some token } s).bare =
      (ofSettings transport { settings with token := some token' } s).bare := by
  have hself := RunConfig.ofSettings_withToken settings h.given h.given
  rw [ofSettings, ofSettings, RunConfig.ofSettings_withToken settings h.given h'.given]
  cases hconfig : RunConfig.ofSettings { settings with token := some token } with
  | error e => rfl
  | ok config =>
    have htoken : config.token = token := by
      rw [hconfig] at hself
      exact congrArg RunConfig.token (Except.ok.inj hself)
    obtain ⟨c, c', hc, hc', halike⟩ := h.exists_clients h' config.apiUrl
    have hfirst := @Client.ofConfig_of_create c transport config (htoken ▸ hc)
    have hsecond := @Client.ofConfig_of_create c' transport (config.withToken token') hc'
    simp only [Except.map, ofConfig, hfirst, hsecond]
    cases transport.refusal with
    | none => exact ofRemote_alike halike ht config token' s
    | some causes => rfl

end Run

section Arguments

/-- Environments that differ in the token at most. -/
def Environment.Alike (env env' : Environment) : Prop :=
  ∀ name, name ≠ Setting.token.variableName → env name = env' name

variable {env env' : Environment} (h : env.Alike env')
include h

theorem Environment.Alike.variable {s : Setting} (hs : s ≠ .token) :
    env s.variableName = env' s.variableName := by
  refine h _ ?_
  cases s <;> first | exact absurd rfl hs | decide

/-- The token of the settings is the environment's, or the environment has no part in them. -/
theorem Arguments.read_cases (words : List String) :
    (∃ stop, read env words = .error stop ∧ read env' words = .error stop) ∨
      (∃ settings, read env words = .ok settings ∧ read env' words = .ok settings) ∨
      ∃ settings : Settings,
        read env words = .ok { settings with token := env Setting.token.variableName } ∧
        read env' words = .ok { settings with token := env' Setting.token.variableName } := by
  unfold read
  cases Progress.start.run words with
  | error stop => exact .inl ⟨stop, rfl, rfl⟩
  | ok p =>
    have hchosen : ∀ s, s ≠ .token → chosen? env p.taken s = chosen? env' p.taken s := by
      intro s hs
      rw [chosen?, chosen?, h.variable hs]
    simp only [Except.bind, settingsOf, hchosen .runId (by decide), hchosen .repository (by decide),
      hchosen .apiUrl (by decide), hchosen .concurrency (by decide)]
    cases concurrencyOf (chosen? env' p.taken .concurrency) with
    | error stop => exact .inl ⟨stop, rfl, rfl⟩
    | ok concurrency =>
      refine .inr ?_
      cases htoken : p.taken.lookup .token with
      | some token =>
        refine .inl ⟨_, rfl, ?_⟩
        simp only [Except.map, chosen?, htoken, Option.some_or]
      | none =>
        refine .inr ⟨⟨none, chosen? env' p.taken .runId, chosen? env' p.taken .repository,
          chosen? env' p.taken .apiUrl, concurrency⟩, ?_, ?_⟩ <;>
          simp only [Except.map, chosen?, htoken, Option.none_or]

/-- The help text shows what the environment gives, but not the token. -/
theorem help_alike : Settings.Help.text env = Settings.Help.text env' := by
  have hnote : Settings.Help.variableNote env = Settings.Help.variableNote env' := by
    funext s
    by_cases hs : s = .token
    · simp only [Settings.Help.variableNote, hs, ↓reduceIte]
    · simp only [Settings.Help.variableNote, h.variable hs]
  have hline : Settings.Help.settingLine env = Settings.Help.settingLine env' := by
    funext s
    rw [Settings.Help.settingLine, hnote]
    rfl
  rw [Settings.Help.text, Settings.Help.styledText, hline]
  rfl

theorem stopped_alike [Arguments.Advice] (stop : Arguments.Stop) :
    CommandLine.stopped env stop = CommandLine.stopped env' stop := by
  match stop with
  | .display .help => simp only [CommandLine.stopped, help_alike h]
  | .display .version => rfl
  | .refused e => rfl

end Arguments

namespace Run

/-- The token is for the authorization of requests and for nothing else. Settings that differ in it, with
tokens that clients can be made with, make runs with the same exit status, report, remarks of all levels and
requests, authorization apart, and configurations that are shown alike or fail alike; tokens that no client
can be made with fail alike. Environments that differ in it make the same settings, token apart, or stop
with the same text, and so do whole runs of the program. -/
theorem token_only_authorizes [Url.Idna] [Arguments.Advice] :
    (∀ (transport : Http.Transport) (settings : Settings) (token token' : String) (s : Sink),
      transport.Blind → Usable token → Usable token' →
        let run := fun t => ofSettings transport { settings with token := some t } s
        let config := fun t => RunConfig.ofSettings { settings with token := some t }
        (run token).code = (run token').code ∧ (run token).sink = (run token').sink ∧
          (run token).remarks = (run token').remarks ∧
          (run token).requests.map Http.Request.bare = (run token').requests.map Http.Request.bare ∧
          (config token).map RunConfig.text = (config token').map RunConfig.text) ∧
      (∀ (base base' : Url) (token token' : String) (e e' : Api.Error),
        Client.create base token = .error e → Client.create base' token' = .error e' →
          e.message = e'.message ∧ e.chain = e'.chain) ∧
      (∀ (env env' : Environment) (words : List String), env.Alike env' →
        ((Arguments.read env words).map fun settings => { settings with token := none }) =
            ((Arguments.read env' words).map fun settings => { settings with token := none }) ∧
          ∀ stop, CommandLine.stopped env stop = CommandLine.stopped env' stop) ∧
      ∀ (transport : Http.Transport) (env env' : Environment) (words : List String) (token token' : String),
        transport.Blind → env.Alike env' → env "GH_TOKEN" = some token → env' "GH_TOKEN" = some token' →
        Usable token → Usable token' →
          let run := fun env => CommandLine.run transport env words
          (run env).code = (run env').code ∧ (run env).stdout = (run env').stdout ∧
            (run env).stderr = (run env').stderr ∧
            (run env).requests.map Http.Request.bare = (run env').requests.map Http.Request.bare := by
  refine ⟨?_, ?_, ?_, ?_⟩
  · intro transport settings token token' s ht h h' run config
    have hrun : (run token).bare = (run token').bare := ofSettings_alike ht settings h h' s
    obtain ⟨hcode, hsink, hremarks, hrequests⟩ := Outcome.bare_eq_iff.mp hrun
    refine ⟨hcode, hsink, hremarks, hrequests, ?_⟩
    have hconfig : config token' = (config token).map (RunConfig.withToken token') :=
      RunConfig.ofSettings_withToken settings h.given h'.given
    rw [hconfig]
    cases config token with
    | error e => rfl
    | ok c => exact congrArg Except.ok (RunConfig.text_withToken token' c).symm
  · intro base base' token token' e e' he he'
    rw [Client.create_eq_error he, Client.create_eq_error he']
    exact ⟨rfl, rfl⟩
  · intro env env' words h
    refine ⟨?_, stopped_alike h⟩
    rcases Arguments.read_cases h words with ⟨stop, hstop, hstop'⟩ | ⟨settings, hs, hs'⟩ | ⟨settings, hs, hs'⟩
    · rw [hstop, hstop']
    · rw [hs, hs']
    · rw [hs, hs']
      rfl
  · intro transport env env' words token token' ht h htoken htoken' hu hu' run
    have hfilter : env Log.Filter.variableName = env' Log.Filter.variableName := h _ (by decide)
    rcases Arguments.read_cases h words with ⟨stop, hstop, hstop'⟩ | ⟨settings, hs, hs'⟩ | ⟨settings, hs, hs'⟩
    · have hstopped := stopped_alike h stop
      simp [run, CommandLine.run, hstop, hstop', hstopped]
    · simp [run, CommandLine.run, hs, hs', hfilter]
    · have hrun := ofSettings_alike ht settings hu hu' .unlimited
      obtain ⟨hcode, hsink, hremarks, hrequests⟩ := Outcome.bare_eq_iff.mp hrun
      have hname : Setting.token.variableName = "GH_TOKEN" := rfl
      rw [hname, htoken] at hs
      rw [hname, htoken'] at hs'
      simp [run, CommandLine.run, hs, hs', hfilter, hcode, hsink, hremarks, hrequests]

def oneWarning : Http.Transport := .plain fun request =>
  let body := [("/repos/octo/hello/actions/runs/42/jobs", "\x7b\"jobs\":[\x7b\"id\":7\x7d]\x7d"),
    ("/repos/octo/hello/check-runs/7/annotations", "[\x7b\"annotation_level\":\"warning\"\x7d]")].lookup
      (String.ofList request.url.path.text)
  .answered (body.elim ⟨404, none, none, []⟩ fun text => ⟨200, none, some (CommandLine.encode text), []⟩)

def environmentOf (token : String) : Environment := fun name =>
  [("GH_TOKEN", token), ("workflow_id", "42"), ("GITHUB_REPOSITORY", "octo/hello"),
    ("GITHUB_API_URL", "http://api.test"), ("RUST_LOG", "debug")].lookup name

theorem token_only_authorizes_warning :
    let run := fun token => CommandLine.run oneWarning (environmentOf token) ["--concurrency", "2"]
    (run "t0ken").stdout = (run "other").stdout ∧ (run "t0ken").stdout ≠ [] ∧
      (run "t0ken").stderr = (run "other").stderr ∧
      (run "t0ken").requests.map Http.Request.bare = (run "other").requests.map Http.Request.bare ∧
      (run "t0ken").requests.map (·.headers.lookup "authorization") =
        [some "Bearer t0ken", some "Bearer t0ken"] ∧
      (run "other").requests.map (·.headers.lookup "authorization") =
        [some "Bearer other", some "Bearer other"] := by
  intro run
  have hfirst : Usable "t0ken" := ⟨by decide, fun _ => ⟨_, rfl⟩⟩
  have hsecond : Usable "other" := ⟨by decide, fun _ => ⟨_, rfl⟩⟩
  have halike : (environmentOf "t0ken").Alike (environmentOf "other") := by
    intro name hname
    have hbeq : (name == "GH_TOKEN") = false := beq_false_of_ne hname
    simp only [environmentOf, List.lookup_cons, hbeq]
  have hblind : oneWarning.Blind := by
    refine ⟨fun h => ?_, fun _ => rfl⟩
    have hurl := congrArg Http.Request.url h
    simp only [Http.Request.bare] at hurl
    simp only [oneWarning, Http.Transport.plain, hurl]
  obtain ⟨-, -, -, hwhole⟩ := token_only_authorizes
  obtain ⟨-, hstdout, hstderr, hrequests⟩ :=
    hwhole oneWarning _ _ ["--concurrency", "2"] "t0ken" "other" hblind halike rfl rfl hfirst hsecond
  refine ⟨hstdout, ?_, hstderr, hrequests, ?_, ?_⟩ <;> decide +kernel

end Run
end AnnotationReport
