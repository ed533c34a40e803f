import AnnotationReport.Api.Client
import AnnotationReport.Proofs.Url.Extension

/-! # What a request addresses

A request for values below a base URL should address one resource: under the base, one segment for
each value. It does so exactly when no value holds a tab or a line end. These are not refused, and
they are gone only after dot segments were looked for.
-/
namespace AnnotationReport

namespace Url

/-- A URL below a base with one segment for each value: a segment decodes to its value, and nothing
within it ends it. -/
def Addresses (url base : Url) (values : List String) : Prop :=
  url = { base with path := url.path } ∧
    ∃ segments : List Segment,
      (∀ s ∈ segments, ∀ c ∈ s, isDelimiter base.kind c = false) ∧
        url.path.text = stem base.path.text ++ Path.joined segments ∧
        segments.map decode = values.map fun v => Text.Utf8.encode v.toList

def routeStart : String := "repos"

theorem isBreak_routeStart : ∀ c ∈ routeStart.toList, isBreak c = false := by
  simp [routeStart, isBreak]

theorem isDelimiter_routeStart (kind : SchemeKind) :
    ∀ c ∈ routeStart.toList, isDelimiter kind c = false := by
  simp [routeStart, isDelimiter, isSlash, endsPath]

theorem encodeSegment_routeStart (kind : SchemeKind) :
    encodeSegment kind routeStart.toList = ⟨routeStart.toList, []⟩ := by
  cases kind <;> decide

section Extension

variable {base : Url} {list : List Segment}

/-- The segments of a route are added to the segments of the base, from its first one on. -/
theorem extend?_route (hp : base.path = .segments list) (values : List String) :
    base.extend? ((routeStart :: values).map String.toList) =
      some { base with
        path := .segments (((values.map String.toList).map (encodeSegment base.kind)).foldl
          (Path.extend (base.kind = .file)) (rooted (Path.trim list) ++ [routeStart.toList])) } := by
  have hfirst : Path.extend (base.kind = .file) (Path.trim list) ⟨routeStart.toList, []⟩ =
      rooted (Path.trim list) ++ [routeStart.toList] := by
    refine extend_first rfl ?_ ?_
    · decide
    · unfold isDots
      decide
  simp only [extend?, hp, List.map_cons, List.foldl_cons, encodeSegment_routeStart, hfirst]

theorem route_ne_nil : rooted (Path.trim list) ++ [routeStart.toList] ≠ [] := by simp

theorem route_ne_root : rooted (Path.trim list) ++ [routeStart.toList] ≠ [[]] := by
  intro h
  have hl := congrArg List.getLast? h
  rw [List.getLast?_concat] at hl
  exact absurd hl (by decide)

/-- Where the breaks leave no dots behind, each value gets a segment, though without its breaks. -/
theorem extend?_route_of_not_dots (hp : base.path = .segments list) (hl : Slashless list)
    {values : List String}
    (hdots : ∀ v ∈ values, significant v.toList ≠ ['.'] ∧ significant v.toList ≠ ['.', '.']) :
    ∃ url, base.extend? ((routeStart :: values).map String.toList) = some url ∧
      url = { base with path := url.path } ∧
      url.path.text = stem base.path.text ++ Path.joined (routeStart.toList ::
        values.map fun v => encode (segmentSet base.kind) (significant v.toList)) := by
  have hnone : ∀ b ∈ (values.map String.toList).map (encodeSegment base.kind), ¬isDots b.whole := by
    intro b hb hd
    simp only [List.map_map, List.mem_map, Function.comp_apply] at hb
    obtain ⟨v, hv, rfl⟩ := hb
    rcases significant_of_isDots hd with h | h
    · exact (hdots v hv).1 h
    · exact (hdots v hv).2 h
  have hpath := foldl_extend (base.kind = .file) (@route_ne_nil list) route_ne_root hnone
  simp only [List.map_map, Function.comp_def, whole_encodeSegment] at hpath
  refine ⟨_, extend?_route hp values, rfl, ?_⟩
  simp only [Path.text, hp, stem_joined hl, List.map_map, Function.comp_def, hpath,
    Path.joined_append, List.append_assoc]
  rfl

theorem addresses_of_no_break (hp : base.path = .segments list) (hl : Slashless list)
    {values : List String} (hdots : ∀ v ∈ values, v ≠ "." ∧ v ≠ "..")
    (hb : ∀ v ∈ values, ∀ c ∈ v.toList, isBreak c = false) :
    ∃ url, base.extend? ((routeStart :: values).map String.toList) = some url ∧
      Addresses url base (routeStart :: values) := by
  have hkept : ∀ v ∈ values, significant v.toList = v.toList := fun v hv => significant_eq (hb v hv)
  have hleft : ∀ v ∈ values, significant v.toList ≠ ['.'] ∧ significant v.toList ≠ ['.', '.'] := by
    intro v hv
    obtain ⟨hdot, hdots⟩ := hdots v hv
    rw [hkept v hv]
    exact ⟨fun h => hdot (String.toList_inj.mp h), fun h => hdots (String.toList_inj.mp h)⟩
  obtain ⟨url, hu, hsame, htext⟩ := extend?_route_of_not_dots hp hl hleft
  have hsegments : (values.map fun v => encode (segmentSet base.kind) (significant v.toList)) =
      values.map fun v => encode (segmentSet base.kind) v.toList :=
    List.map_congr_left fun v hv => by rw [hkept v hv]
  rw [hsegments] at htext
  refine ⟨url, hu, hsame, _, ?_, htext, ?_⟩
  · intro s hs
    rcases List.mem_cons.mp hs with rfl | hs
    · exact isDelimiter_routeStart base.kind
    · obtain ⟨v, _, rfl⟩ := List.mem_map.mp hs
      exact fun c hc => isDelimiter_encode base.kind v.toList hc
  · simp only [List.map_cons, List.map_map, Function.comp_def, decode_encode (segmentSet_percent _)]
    exact List.cons_eq_cons.mpr ⟨by decide, rfl⟩

/-- A break takes something away that no part of the path makes up for. -/
theorem not_addresses_of_break (hp : base.path = .segments list) (hl : Slashless list)
    {values : List String} {v : String} (hv : v ∈ values) {c : Char} (hc : c ∈ v.toList)
    (hb : isBreak c) {url : Url}
    (h : base.extend? ((routeStart :: values).map String.toList) = some url) :
    ¬Addresses url base (routeStart :: values) := by
  rw [extend?_route hp] at h
  obtain rfl := Option.some.inj h
  rintro ⟨-, segments, -, htext, hdecode⟩
  simp only [Path.text, hp, stem_joined hl, ← Path.joined_append] at htext
  -- The path decodes to fewer bytes than a slash and the whole value for each segment would.
  have hweight := congrArg (fun t => (decode t).length) htext
  have hlengths : segments.map (fun s => 1 + (decode s).length) =
      (routeStart :: values).map fun v => 1 + (Text.Utf8.encode v.toList).length := by
    have := congrArg (List.map fun bytes : List UInt8 => 1 + bytes.length) hdecode
    simpa only [List.map_map, Function.comp_def] using this
  have hstart : weight [routeStart.toList] = 1 + (Text.Utf8.encode routeStart.toList).length := by
    decide
  have hgrows := weight_foldl_extend_le (base.kind = .file) (@route_ne_nil list) base.kind
    (values.map String.toList)
  have hlost := sum_significant_lt (List.mem_map_of_mem hv) hc hb
  simp only [List.map_map, Function.comp_def] at hgrows hlost
  have heq : weight (((values.map String.toList).map (encodeSegment base.kind)).foldl
        (Path.extend (base.kind = .file)) (rooted (Path.trim list) ++ [routeStart.toList])) =
      weight (rooted (Path.trim list) ++ segments) := hweight
  simp only [List.map_map, Function.comp_def] at heq
  rw [weight_append, weight_eq segments, hlengths, List.map_cons, List.sum_cons] at heq
  rw [weight_append, hstart] at hgrows
  omega

end Extension

end Url

namespace Client

theorem isRefused_iff {v : String} : isRefused v = true ↔ v = "" ∨ v = "." ∨ v = ".." := by
  simp only [isRefused, Bool.or_eq_true, decide_eq_true_eq, or_assoc]

section Get

variable {α : Type} {c : Client} {segments : List String} {url : Url} (transport : Http.Transport)
  (read? : List UInt8 → Option α)

theorem get_of_error {e : Api.Error} (h : c.urlOf segments = .error e) :
    c.get transport read? segments = ⟨none, #[], .error e⟩ := by
  simp only [get, exchange, h]
  rfl

theorem get_of_url (h : c.urlOf segments = .ok url) :
    c.get transport read? segments = ⟨some url,
      if (transport.send (c.request url)).isSent then #[c.request url] else #[],
      resultOf transport.decoder read? url (transport.send (c.request url))⟩ := by
  simp only [get, exchange, h, Http.Transport.record]
  cases (transport.send (c.request url)).isSent <;> rfl

theorem get_of_refused {bad : String} (h : segments.find? isRefused = some bad) :
    c.get transport read? segments = ⟨none, #[], .error (.segment bad segments)⟩ := by
  apply get_of_error
  simp only [urlOf, h]

theorem asked_get (h : segments.find? isRefused = none)
    (hu : c.base.extend? (segments.map String.toList) = some url) :
    (c.get transport read? segments).asked = some url := by
  have hurl : c.urlOf segments = .ok url := by simp only [urlOf, h, hu]
  rw [get_of_url transport read? hurl]

/-- What is sent is the request for the URL that is asked for. -/
theorem mem_sent_get {request : Http.Request} (h : request ∈ (c.get transport read? segments).sent) :
    ∃ url, (c.get transport read? segments).asked = some url ∧ c.urlOf segments = .ok url ∧
      request = c.request url ∧ request.url = url := by
  cases hurl : c.urlOf segments with
  | error e => simp [get_of_error transport read? hurl] at h
  | ok url =>
    rw [get_of_url transport read? hurl] at h ⊢
    refine ⟨url, rfl, rfl, ?_⟩
    obtain rfl : request = c.request url := by
      cases hsent : (transport.send (c.request url)).isSent <;> simp_all
    exact ⟨rfl, rfl⟩

end Get

/-- The jobs of a run are asked for below the base URL, with one segment for each value, or not at
all. That is so exactly when one of the values is refused or none holds a break; other values, such
as two dots after a tab, lead elsewhere. -/
theorem jobsOfRun_addresses_iff [Url.Idna] {text : String} {base : Url} (h : ApiUrl.ofText text = .ok base)
    (headers : Http.Headers) (transport : Http.Transport) (r : Repository) (runId : String) :
    let values := Routes.runJobs r.owner r.name runId
    let call := (⟨base, headers⟩ : Client).jobsOfRun transport r runId
    ((∃ bad, call = ⟨none, #[], .error (.segment bad values)⟩) ∨
        ∃ url, call.asked = some url ∧ url.Addresses base values) ↔
      (∃ v ∈ values, v = "" ∨ v = "." ∨ v = "..") ∨
        ∀ v ∈ values, ∀ c ∈ v.toList, Url.isBreak c = false := by
  intro values call
  obtain ⟨list, hp, hl⟩ := Url.exists_segments_of_apiUrl h
  let rest := [r.owner, r.name, "actions", "runs", runId, "jobs"]
  cases hf : values.find? isRefused with
  | some bad =>
    have hbad : isRefused bad = true := List.find?_some hf
    refine iff_of_true (.inl ⟨bad, get_of_refused transport _ hf⟩) (.inl ?_)
    exact ⟨bad, List.mem_of_find?_eq_some hf, isRefused_iff.mp hbad⟩
  | none =>
    have hnone : ∀ v ∈ values, ¬(v = "" ∨ v = "." ∨ v = "..") := by
      intro v hv hr
      exact List.find?_eq_none.mp hf v hv (isRefused_iff.mpr hr)
    have hextend := Url.extend?_route hp rest
    have hasked : call.asked = some _ := asked_get transport Job.readAnswer? hf hextend
    constructor
    · rintro (⟨bad, hcall⟩ | ⟨url, hurl, haddresses⟩)
      · rw [hcall] at hasked
        cases hasked
      · obtain rfl := Option.some.inj (hasked.symm.trans hurl)
        refine .inr ?_
        intro v hv c hc
        rcases List.mem_cons.mp hv with rfl | hv
        · exact Url.isBreak_routeStart c hc
        · rw [← Bool.not_eq_true]
          exact fun hb => Url.not_addresses_of_break hp hl hv hc hb hextend haddresses
    · rintro (⟨v, hv, hr⟩ | hb)
      · exact absurd hr (hnone v hv)
      · have hdots : ∀ v ∈ rest, v ≠ "." ∧ v ≠ ".." := by
          intro v hv
          have hr := hnone v (List.mem_cons_of_mem _ hv)
          exact ⟨fun he => hr (.inr (.inl he)), fun he => hr (.inr (.inr he))⟩
        obtain ⟨url, hu, haddresses⟩ := Url.addresses_of_no_break hp hl hdots
          (fun v hv => hb v (List.mem_cons_of_mem _ hv))
        exact .inr ⟨url, asked_get transport Job.readAnswer? hf hu, haddresses⟩

def plainBase : Url :=
  ⟨"http".toList, some ⟨.nobody, some (.name "api.test".toList), none⟩, false, .segments [[]], none, none⟩

theorem jobsOfRun_addresses_number :
    ApiUrl.ofText "http://api.test" = .ok plainBase ∧
      let values := Routes.runJobs "octo" "hello" "42"
      let call := (⟨plainBase, []⟩ : Client).jobsOfRun .offline ⟨"octo", "hello"⟩ "42"
      (∃ bad, call = ⟨none, #[], .error (.segment bad values)⟩) ∨
        ∃ url, call.asked = some url ∧ url.Addresses plainBase values := by
  have hbase : ApiUrl.ofText "http://api.test" = .ok plainBase := rfl
  have hb : ∀ v ∈ Routes.runJobs "octo" "hello" "42", ∀ c ∈ v.toList, Url.isBreak c = false := by
    simp [Routes.runJobs, Url.isBreak]
  exact ⟨hbase, (jobsOfRun_addresses_iff hbase [] _ ⟨"octo", "hello"⟩ "42").mpr (.inr hb)⟩

/-- Two dots after a tab are not refused, and the tab is gone before they are read as dots: they take
the segment before them away. -/
theorem jobsOfRun_misled_by_tab :
    ApiUrl.ofText "http://api.test" = .ok plainBase ∧
      Repository.ofText? "octo/hello" = some ⟨"octo", "hello"⟩ ∧
      let values := Routes.runJobs "octo" "hello" "\t.."
      let call := (⟨plainBase, []⟩ : Client).jobsOfRun .offline ⟨"octo", "hello"⟩ "\t.."
      call.asked.map (·.path.text) = some "/repos/octo/hello/actions//jobs".toList ∧
        ¬((∃ bad, call = ⟨none, #[], .error (.segment bad values)⟩) ∨
          ∃ url, call.asked = some url ∧ url.Addresses plainBase values) := by
  refine ⟨rfl, by decide, by decide, ?_⟩
  have hl : Url.Slashless [[]] := by simp [Url.Slashless]
  have hextend := Url.extend?_route (show plainBase.path = .segments [[]] from rfl)
    ["octo", "hello", "actions", "runs", "\t..", "jobs"]
  have hasked := asked_get (c := ⟨plainBase, []⟩) .offline Job.readAnswer? (by decide) hextend
  rintro (⟨bad, hcall⟩ | ⟨url, hurl, haddresses⟩)
  · exact absurd (congrArg Call.asked hcall) (by rw [jobsOfRun]; exact hasked ▸ Option.some_ne_none _)
  · obtain rfl := Option.some.inj (hasked.symm.trans hurl)
    exact Url.not_addresses_of_break rfl hl (v := "\t..") (by decide) (c := '\t') (by decide) rfl
      hextend haddresses

end Client

end AnnotationReport
