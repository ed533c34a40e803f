import AnnotationReport.Proofs.Api.RequestHeaders
import AnnotationReport.Proofs.Text.Excerpt
import AnnotationReport.Proofs.Text.Utf8

/-! # What becomes of a call

A call sends one request at most, and its result depends on nothing but the reply to that. Four things are
looked at in turn: whether there is a URL to ask for, whether the request is answered, the status of the
answer, and only then its body. The body of an answer without success is never read as JSON; the beginning
of its text is shown, and that is the beginning of the text that was encoded.
-/
namespace AnnotationReport

namespace Text

variable {text : List Char}

theorem Utf8.decode_encode (text : List Char) : decode (encode text) = text := by
  rw [decode, pieces_encode, List.map_map]
  exact List.map_id text

/-- An encoded text begins with a character of its own. -/
theorem Utf8.head?_of_pieces {p : Piece} {r : List Piece} (h : pieces (encode text) = p :: r) :
    ∃ c, text.head? = some c ∧ p = .scalar c := by
  rw [pieces_encode] at h
  cases text with
  | nil => cases h
  | cons c t => exact ⟨c, rfl, (List.cons.inj h).1.symm⟩

/-- Of encoded texts, only those that begin with a byte order mark are taken to have one. -/
theorem Unicode.decode_encode (h : text.head? ≠ some '\uFEFF') :
    Unicode.decode (Utf8.encode text) = text := by
  -- The marks of the other encodings are made of bytes that begin no character.
  have hmalformed : ∀ {b : UInt8} {r : List UInt8},
      Utf8.pieces (b :: r) = .malformed [b] :: Utf8.pieces r → Utf8.encode text ≠ b :: r := by
    intro b r hpieces hencode
    rw [← hencode] at hpieces
    obtain ⟨c, -, hc⟩ := Utf8.head?_of_pieces hpieces
    cases hc
  unfold Unicode.decode
  split
  · rename_i r hencode
    have hmark : Utf8.pieces (0xEF :: 0xBB :: 0xBF :: r) = .scalar '\uFEFF' :: Utf8.pieces r := rfl
    rw [← hencode] at hmark
    obtain ⟨c, hc, heq⟩ := Utf8.head?_of_pieces hmark
    exact absurd (Utf8.Piece.scalar.inj heq ▸ hc) h
  · exact absurd ‹_› (hmalformed rfl)
  · exact absurd ‹_› (hmalformed rfl)
  · exact Utf8.decode_encode text

end Text

theorem Http.Response.text_of_unread {decoder : Http.Decoder} {response : Http.Response}
    (h : response.body = none) : response.text decoder = "" := by
  rw [Http.Response.text, h, Option.elim_none]

/-- A text that is sent as it is encoded is what an answer says. -/
theorem Http.Response.text_of_encoded {decoder : Http.Decoder} {response : Http.Response} {text : String}
    (hbare : Http.Bare response.contentType) (hbody : response.body = some text.toUTF8.data.toList)
    (hmark : text.toList.head? ≠ some '\uFEFF') : response.text decoder = text := by
  rw [Http.Response.text, hbody, Option.elim_some, decoder.text_of_bare hbare, ← Text.Utf8.encode_toList,
    Text.Unicode.decode_encode hmark, String.ofList_toList]

namespace Query

/-- What is read from the answer to a query. -/
def Found : Query → Type
  | jobs _ _ => Option (List Job)
  | annotations _ _ => Option (List Annotation)

def read? : (q : Query) → List UInt8 → Option q.Found
  | jobs _ _ => Job.readAnswer?
  | annotations _ _ => Annotation.readAnswer?

end Query

namespace Client

/-- The call for a query. -/
def call (c : Client) (transport : Http.Transport) : (q : Query) → Call q.Found
  | .jobs r runId => c.jobsOfRun transport r runId
  | .annotations r checkRunId => c.annotationsOf transport r checkRunId

theorem call_eq_get (c : Client) (transport : Http.Transport) (q : Query) :
    c.call transport q = c.get transport q.read? q.segments := by
  cases q <;> rfl

/-- Segments that cannot be asked for: one of them does not stand for itself, or none can be added. -/
def Unaddressable (c : Client) (segments : List String) : Prop :=
  (∃ v ∈ segments, v = "" ∨ v = "." ∨ v = "..") ∨ c.base.isBase = false

variable {c : Client} {segments : List String} {url : Url}

theorem urlOf_of_unaddressable (h : c.Unaddressable segments) : ∃ e, c.urlOf segments = .error e := by
  unfold urlOf
  cases hfind : segments.find? isRefused with
  | some bad => exact ⟨_, rfl⟩
  | none =>
    rcases h with ⟨v, hv, hrefused⟩ | hbase
    · exact absurd (isRefused_iff.mpr hrefused) (List.find?_eq_none.mp hfind v hv)
    · unfold Url.isBase at hbase
      split at hbase
      · cases hbase
      · rename_i hpath
        simp only [Url.extend?, hpath]
        exact ⟨_, rfl⟩

theorem exists_urlOf (h : ¬c.Unaddressable segments) : ∃ url, c.urlOf segments = .ok url := by
  have hfind : segments.find? isRefused = none := by
    refine List.find?_eq_none.mpr fun v hv hrefused => h (.inl ⟨v, hv, isRefused_iff.mp hrefused⟩)
  cases hpath : c.base.path with
  | rootless text => exact absurd (.inr (by simp [Url.isBase, hpath])) h
  | segments list =>
    simp only [urlOf, hfind, Url.extend?, hpath]
    exact ⟨_, rfl⟩

/-- What a query for a URL comes to, by the reply to its request. -/
structure Settles (q : Query) (url : Url) (decoder : Http.Decoder) (reply : Http.Reply)
    (result : Except Api.Error q.Found) : Prop where
  lost : ∀ causes, reply = .unsent causes ∨ reply = .unanswered causes → result = .error (.unsent url causes)
  refused : ∀ response, reply = .answered response → ¬(200 ≤ response.status ∧ response.status < 300) →
    result = .error (.status url response.status (Text.excerpt (response.text decoder) 512))
  found : ∀ response, reply = .answered response → 200 ≤ response.status ∧ response.status < 300 →
    ∀ found : q.Found, result = .ok found ↔ response.body.bind q.read? = some found
  unread : ∀ response, reply = .answered response → 200 ≤ response.status ∧ response.status < 300 →
    response.body.bind q.read? = none → result = .error (.body url response.causes)

section Value

variable {α : Type} {decoder : Http.Decoder} {read? : List UInt8 → Option α} {response : Http.Response}

theorem valueOf_eq_ok_iff (h : 200 ≤ response.status ∧ response.status < 300) {value : α} :
    valueOf decoder read? url response = .ok value ↔ response.body.bind read? = some value := by
  have hsuccess : response.isSuccess = true := by simp [Http.Response.isSuccess, h]
  rw [valueOf, if_pos hsuccess]
  cases response.body.bind read? <;> simp

theorem valueOf_of_unread (h : 200 ≤ response.status ∧ response.status < 300)
    (hunread : response.body.bind read? = none) :
    valueOf decoder read? url response = .error (.body url response.causes) := by
  have hsuccess : response.isSuccess = true := by simp [Http.Response.isSuccess, h]
  rw [valueOf, if_pos hsuccess, hunread]

theorem valueOf_of_refused (h : ¬(200 ≤ response.status ∧ response.status < 300)) :
    valueOf decoder read? url response =
      .error (.status url response.status (Text.excerpt (response.text decoder) 512)) := by
  have hrefused : ¬response.isSuccess = true := by simpa [Http.Response.isSuccess] using h
  rw [valueOf, if_neg hrefused]
  rfl

end Value

variable {q : Query}

theorem settles_resultOf (q : Query) (url : Url) (decoder : Http.Decoder) (reply : Http.Reply) :
    Settles q url decoder reply (resultOf decoder q.read? url reply) := by
  cases reply with
  | unsent causes => constructor <;> simp [resultOf]
  | unanswered causes => constructor <;> simp [resultOf]
  | answered response =>
    have hthe : ∀ {other}, Http.Reply.answered response = .answered other → other = response :=
      fun heq => (Http.Reply.answered.inj heq).symm
    constructor
    case lost => simp
    case refused =>
      intro other hother hstatus
      obtain rfl := hthe hother
      exact valueOf_of_refused hstatus
    case found =>
      intro other hother hstatus found
      obtain rfl := hthe hother
      exact valueOf_eq_ok_iff hstatus
    case unread =>
      intro other hother hstatus hunread
      obtain rfl := hthe hother
      exact valueOf_of_unread hstatus hunread

section Exchange

variable {m : Type → Type} [Monad m] (send : Http.Request → m Http.Reply) (decoder : Http.Decoder)

/-- Where there is a URL, one request is sent, and nothing follows the reply. -/
theorem exchange_of_url (h : c.urlOf q.segments = .ok url) :
    c.exchange decoder q.read? send q.segments =
      (do return resultOf decoder q.read? url (← send (c.request url))) := by
  simp only [exchange, h]

theorem exchange_of_error {e : Api.Error} (h : c.urlOf q.segments = .error e) :
    c.exchange decoder q.read? send q.segments = pure (.error e) := by
  simp only [exchange, h]

end Exchange

/-- What becomes of every call, under any base URL, for any values and whatever carries its request. Segments
that cannot be asked for send nothing, and a transport that keeps a state stays in it. Otherwise the request
for the URL is sent once: what the call comes to and what it leaves behind are settled by the one reply. With
no answer the call fails as not sent, with a status that is no success it fails with that status, the whole
URL and the beginning of the body's text, and with success it gives what the whole body is read as or fails
as not read. A body that breaks off has no text, and a text that is sent as UTF-8 with a content type that
names no character set is shown as it was, cut to 512 characters. -/
theorem call_settled (c : Client) (q : Query) :
    (c.Unaddressable q.segments → ∃ e, (∀ transport, c.call transport q = ⟨none, #[], .error e⟩) ∧
      ∀ (σ : Type) (send : Http.Request → StateM σ Http.Reply) decoder (s : σ),
        (c.exchange decoder q.read? send q.segments).run s = (.error e, s)) ∧
      (¬c.Unaddressable q.segments → ∃ url, c.urlOf q.segments = .ok url ∧ (c.request url).url = url ∧
        (∀ transport : Http.Transport,
          let reply := transport.send (c.request url)
          let call := c.call transport q
          call.asked = some url ∧ call.sent = (if reply.isSent then #[c.request url] else #[]) ∧
            Settles q url transport.decoder reply call.result) ∧
        ∀ (σ : Type) (send : Http.Request → StateM σ Http.Reply) decoder (s : σ),
          let sent := (send (c.request url)).run s
          ∃ result, (c.exchange decoder q.read? send q.segments).run s = (result, sent.2) ∧
            Settles q url decoder sent.1 result) ∧
      (∀ url causes, (Api.Error.unsent url causes).message = "Failed to send GET " ++ url.text ∧
        (Api.Error.body url causes).message = "Failed to parse response of GET " ++ url.text ∧
        ∀ status shown, (Api.Error.status url status shown).message =
          "GET " ++ url.text ++ " returned HTTP " ++ Http.statusText status ++ ": " ++ shown) ∧
      (∀ decoder (response : Http.Response), response.body = none →
        Text.excerpt (response.text decoder) 512 = "") ∧
      (∀ contentType ∈ [none, some "application/json"], Http.Bare contentType) ∧
      ∀ (transport : Http.Transport) url status contentType (text : String) causes,
        c.urlOf q.segments = .ok url → transport.send (c.request url) =
          .answered ⟨status, contentType, some text.toUTF8.data.toList, causes⟩ →
        Http.Bare contentType → 300 ≤ status → text.toList.head? ≠ some '\uFEFF' →
        (c.call transport q).result = .error (.status url status (Text.excerpt text 512)) ∧
          (Text.excerpt text 512).length ≤ 515 := by
  refine ⟨?_, ?_, fun url causes => ⟨rfl, rfl, fun _ _ => rfl⟩, ?_, by decide, ?_⟩
  · intro h
    obtain ⟨e, he⟩ := urlOf_of_unaddressable h
    refine ⟨e, fun transport => ?_, fun σ send decoder s => ?_⟩
    · rw [call_eq_get, get_of_error transport q.read? he]
    · rw [exchange_of_error send decoder he]
      rfl
  · intro h
    obtain ⟨url, hurl⟩ := exists_urlOf h
    refine ⟨url, hurl, rfl, fun transport => ?_, fun σ send decoder s => ?_⟩
    · intro reply call
      have hcall : call = _ := (call_eq_get c transport q).trans (get_of_url transport q.read? hurl)
      rw [hcall]
      exact ⟨rfl, rfl, settles_resultOf q url transport.decoder reply⟩
    · intro sent
      refine ⟨resultOf decoder q.read? url sent.1, ?_, settles_resultOf q url decoder sent.1⟩
      rw [exchange_of_url send decoder hurl]
      rfl
  · intro decoder response hbody
    rw [Http.Response.text_of_unread hbody]
    rfl
  · intro transport url status contentType text causes hurl hreply hbare hstatus hmark
    have hresult : (c.call transport q).result =
        resultOf transport.decoder q.read? url (transport.send (c.request url)) := by
      rw [call_eq_get, get_of_url transport q.read? hurl]
    have hrefused := (settles_resultOf q url transport.decoder _).refused _ hreply fun h => by
      have hhigh : status < 300 := h.2
      omega
    rw [← hresult, Http.Response.text_of_encoded hbare rfl hmark] at hrefused
    exact ⟨hrefused, Text.length_excerpt_le text 512⟩

def emptyListing : List Char := "\x7b\"jobs\":[]\x7d".toList

theorem length_emptyListing : emptyListing.length = 11 := rfl

/-- A list of jobs with blanks after it. -/
def padded (n : Nat) : List Char := emptyListing ++ List.replicate n ' '

theorem excerpt_padded {n : Nat} (h : 501 < n) :
    Text.excerpt (String.ofList (padded n)) 512 = String.ofList (padded 501 ++ "...".toList) := by
  have hlong : ¬(String.ofList (padded n)).toList.length ≤ 512 := by
    rw [String.toList_ofList, padded, List.length_append, List.length_replicate, length_emptyListing]
    omega
  have hshort : emptyListing.length ≤ 512 := by
    rw [length_emptyListing]
    omega
  have hblanks : min (512 - emptyListing.length) n = 501 := by
    rw [length_emptyListing]
    omega
  have htake : (padded n).take 512 = padded 501 := by
    rw [padded, List.take_append, List.take_of_length_le hshort, List.take_replicate, hblanks, padded]
  rw [Text.excerpt, if_neg hlong, String.toList_ofList, htake]
  rfl

/-- Whatever is asked for is not there, and the answer says so with a list of jobs. -/
def listElsewhere : Http.Transport := .plain fun _ =>
  .answered ⟨404, some "application/json", some (String.ofList (padded 600)).toUTF8.data.toList, []⟩

theorem call_settled_padded :
    ¬(⟨plainBase, []⟩ : Client).Unaddressable (Query.jobs ⟨"octo", "hello"⟩ "42").segments ∧
      Job.readAnswer? (String.ofList (padded 600)).toUTF8.data.toList = some (some []) ∧
      ∃ url, ((⟨plainBase, []⟩ : Client).call listElsewhere (.jobs ⟨"octo", "hello"⟩ "42")).result =
        .error (.status url 404 (String.ofList (padded 501 ++ "...".toList))) := by
  have hasked : ¬(⟨plainBase, []⟩ : Client).Unaddressable (Query.jobs ⟨"octo", "hello"⟩ "42").segments := by
    simp [Unaddressable, Query.segments, Routes.runJobs, plainBase, Url.isBase]
  obtain ⟨-, haddressed, -, -, hdefault, htext⟩ :=
    call_settled ⟨plainBase, []⟩ (.jobs ⟨"octo", "hello"⟩ "42")
  obtain ⟨url, hurl, -⟩ := haddressed hasked
  have hread : Job.readAnswer? (String.ofList (padded 600)).toUTF8.data.toList = some (some []) := by
    rw [← Text.Utf8.encode_toList, String.toList_ofList]
    decide +kernel
  have hmark : (String.ofList (padded 600)).toList.head? ≠ some '\uFEFF' := by
    rw [String.toList_ofList]
    decide
  obtain ⟨hresult, -⟩ := htext listElsewhere url 404 _ _ [] hurl rfl (hdefault _ (by simp)) (by decide) hmark
  exact ⟨hasked, hread, url, excerpt_padded (n := 600) (by omega) ▸ hresult⟩

end Client
end AnnotationReport
