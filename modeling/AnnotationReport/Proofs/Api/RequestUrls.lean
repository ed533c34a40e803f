import AnnotationReport.Proofs.Api.Addressing

/-! # The URLs of requests

What a report asks the API for lies below the base URL, of which only the path changes: it grows by one
encoded segment for each value. Segments hold no slashes and decode to their values, so the URL gives
the values back, all but the breaks in them.
-/
namespace AnnotationReport

namespace Url

section Grammar

/-- A segment as it is written: characters of ASCII that do not end it, and encoded bytes. -/
inductive Encoded : Segment → Prop
  | nil : Encoded []
  | char {c : Char} {r : Segment} :
      c.toNat < 0x80 → c ∉ ['/', '?', '#', '%'] → Encoded r → Encoded (c :: r)
  | byte {a b : Char} {r : Segment} :
      (Text.hexValue? a).isSome → (Text.hexValue? b).isSome → Encoded r → Encoded ('%' :: a :: b :: r)

variable (kind : SchemeKind) {c : Char} {r : Segment}

theorem Encoded.bytes_append (bytes : List UInt8) (hr : Encoded r) :
    Encoded (bytes.flatMap encodeByte ++ r) := by
  induction bytes with
  | nil => exact hr
  | cons b t ih =>
    have hhigh : (Text.hexValue? (hexDigit (b.toNat / 16))).isSome := by simp [hexValue?_hexDigit]
    have hlow : (Text.hexValue? (hexDigit b.toNat)).isSome := by simp [hexValue?_hexDigit]
    rw [List.flatMap_cons, List.append_assoc]
    exact .byte hhigh hlow ih

theorem plain_of_segmentSet (h : segmentSet kind c = false) :
    c.toNat < 0x80 ∧ c ∉ ['/', '?', '#', '%'] := by
  have hset : EncodeSet.segment c = false := by
    unfold segmentSet at h
    split at h
    · exact h
    · exact (Bool.or_eq_false_iff.mp h).1
  simp only [EncodeSet.segment, EncodeSet.path, EncodeSet.fragment, EncodeSet.controls,
    EncodeSet.including, Bool.or_eq_false_iff, decide_eq_false_iff_not, List.contains_eq_mem,
    List.mem_cons, List.not_mem_nil, or_false, not_or] at hset
  obtain ⟨⟨⟨⟨-, hascii⟩, -⟩, hhash, hmark, -⟩, hslash, hpercent⟩ := hset
  refine ⟨by omega, ?_⟩
  simp [hhash, hmark, hslash, hpercent]

theorem encoded_encode (text : List Char) : Encoded (encode (segmentSet kind) text) := by
  induction text with
  | nil => exact .nil
  | cons c t ih =>
    have hcons : encode (segmentSet kind) (c :: t) =
        encodeChar (segmentSet kind) c ++ encode (segmentSet kind) t := rfl
    rw [hcons, encodeChar]
    split
    · exact ih.bytes_append _
    · rename_i hc
      obtain ⟨hascii, hplain⟩ := plain_of_segmentSet kind (Bool.eq_false_iff.mpr hc)
      exact .char hascii hplain ih

theorem encode_injective {set : EncodeSet} (hset : set '%' = true) : Function.Injective (encode set) := by
  intro s t h
  have hdecode := congrArg decode h
  rw [decode_encode hset, decode_encode hset] at hdecode
  exact Text.Utf8.encode_injective hdecode

theorem Encoded.slash_notMem {s : Segment} (h : Encoded s) : '/' ∉ s := by
  have hdigit : ∀ {a : Char}, (Text.hexValue? a).isSome → a ≠ '/' := by
    rintro a ha rfl
    cases ha
  induction h with
  | nil => exact List.not_mem_nil
  | char _ hc _ ih =>
    intro hm
    rcases List.mem_cons.mp hm with rfl | hm
    · exact hc List.mem_cons_self
    · exact ih hm
  | byte ha hb _ ih =>
    simp only [List.mem_cons, not_or]
    exact ⟨by decide, (hdigit ha).symm, (hdigit hb).symm, ih⟩

end Grammar

section Joined

variable {first second : List Segment}

/-- Slashes stand before all segments, as between them and an empty one at the start. -/
theorem joined_eq_intercalate (segments : List Segment) :
    Path.joined segments = ['/'].intercalate ([] :: segments) := by
  induction segments with
  | nil => rfl
  | cons s r ih =>
    have hcons : Path.joined (s :: r) = '/' :: (s ++ Path.joined r) := rfl
    rw [hcons, ih, List.intercalate_cons_cons]
    cases r with
    | nil => simp
    | cons t u => simp [List.intercalate_cons_cons]

theorem splitOn_joined (h : Slashless first) : (Path.joined first).splitOn '/' = [] :: first := by
  have hall : ∀ s ∈ [] :: first, '/' ∉ s := List.forall_mem_cons.mpr ⟨List.not_mem_nil, h⟩
  rw [joined_eq_intercalate, List.splitOn_intercalate '/' hall (List.cons_ne_nil _ _)]

theorem joined_inj (hf : Slashless first) (hs : Slashless second)
    (h : Path.joined first = Path.joined second) : first = second := by
  have hsplit := congrArg (List.splitOn '/') h
  rw [splitOn_joined hf, splitOn_joined hs, List.cons.injEq] at hsplit
  exact hsplit.2

/-- URLs that differ in their paths only have different texts if the texts of their paths differ. -/
theorem path_text_of_text {base url other : Url} (hu : url = { base with path := url.path })
    (ho : other = { base with path := other.path }) (h : url.text = other.text) :
    url.path.text = other.path.text := by
  have hchars : url.chars = other.chars := String.ofList_injective h
  rw [hu, ho] at hchars
  simp only [chars, requestChars, List.append_assoc, List.append_cancel_left_eq, List.cons_append,
    List.cons.injEq, true_and] at hchars
  exact List.append_cancel_right (by simpa only [List.append_assoc] using hchars)

end Joined

end Url

/-- What a report asks the API for. -/
inductive Query where
  | jobs (r : Repository) (runId : String)
  | annotations (r : Repository) (checkRunId : Nat)

namespace Query

def segments : Query → List String
  | jobs r runId => Routes.runJobs r.owner r.name runId
  | annotations r checkRunId => Routes.annotations r.owner r.name checkRunId

theorem exists_segments_eq (q : Query) : ∃ values, q.segments = Url.routeStart :: values := by
  cases q with
  | jobs r runId => exact ⟨_, rfl⟩
  | annotations r checkRunId => exact ⟨_, rfl⟩

/-- Without the breaks in its values, every segment still stands for itself. -/
def Lasting (q : Query) : Prop :=
  ∀ v ∈ q.segments, Url.significant v.toList ∉ [[], ['.'], ['.', '.']]

theorem Lasting.not_refused {q : Query} (h : q.Lasting) : q.segments.find? Client.isRefused = none := by
  refine List.find?_eq_none.mpr fun v hv hr => h v hv ?_
  rcases Client.isRefused_iff.mp hr with rfl | rfl | rfl <;> decide

end Query

namespace Client

variable {base : Url} {list : List Url.Segment} {headers : Http.Headers} {segments : List String}
  {q other : Query} {url url' : Url}

theorem urlOf_eq_ok (h : (⟨base, headers⟩ : Client).urlOf segments = .ok url) :
    segments.find? isRefused = none ∧ base.extend? (segments.map String.toList) = some url := by
  simp only [urlOf] at h
  split at h
  · cases h
  · refine ⟨‹_›, ?_⟩
    split at h
    · rw [← Except.ok.inj h]
      assumption
    · cases h

/-- Adding segments changes nothing but the path. -/
theorem eq_of_urlOf_eq_ok (h : (⟨base, headers⟩ : Client).urlOf segments = .ok url) :
    url = { base with path := url.path } := by
  have hextend := (urlOf_eq_ok h).2
  unfold Url.extend? at hextend
  split at hextend
  · cases hextend
  · rw [← Option.some.inj hextend]

/-- The only thing that goes wrong under a base URL is a segment, and the first such segment is named. -/
theorem urlOf_eq_error (hp : base.path = .segments list) {e : Api.Error}
    (h : (⟨base, headers⟩ : Client).urlOf segments = .error e) :
    ∃ before bad after, segments = before ++ bad :: after ∧ (bad = "" ∨ bad = "." ∨ bad = "..") ∧
      (∀ v ∈ before, v ≠ "" ∧ v ≠ "." ∧ v ≠ "..") ∧ e = .segment bad segments := by
  simp only [urlOf, Url.extend?, hp] at h
  split at h
  · rename_i bad hbad
    obtain ⟨hrefused, before, after, hsplit, hbefore⟩ := List.find?_eq_some_iff_append.mp hbad
    refine ⟨before, bad, after, hsplit, isRefused_iff.mp hrefused, ?_, (Except.error.inj h).symm⟩
    intro v hv
    have hkept : ¬isRefused v = true := by simpa using hbefore v hv
    simpa only [isRefused_iff, not_or] using hkept
  · cases h

theorem urlOf_error_iff (hp : base.path = .segments list) :
    (∃ e, (⟨base, headers⟩ : Client).urlOf segments = .error e) ↔
      ∃ v ∈ segments, v = "" ∨ v = "." ∨ v = ".." := by
  constructor
  · rintro ⟨e, he⟩
    obtain ⟨before, bad, after, rfl, hbad, -, -⟩ := urlOf_eq_error hp he
    exact ⟨bad, List.mem_append_right before List.mem_cons_self, hbad⟩
  · rintro ⟨v, hv, hrefused⟩
    cases hurl : (⟨base, headers⟩ : Client).urlOf segments with
    | error e => exact ⟨e, rfl⟩
    | ok url =>
      have hnone := List.find?_eq_none.mp (urlOf_eq_ok hurl).1 v hv
      exact absurd (isRefused_iff.mpr hrefused) hnone

def written (base : Url) (v : String) : Url.Segment :=
  Url.encode (Url.segmentSet base.kind) (Url.significant v.toList)

theorem slashless_written (base : Url) (q : Query) : Url.Slashless (q.segments.map (written base)) := by
  intro s hs
  obtain ⟨v, -, rfl⟩ := List.mem_map.mp hs
  exact (Url.encoded_encode base.kind _).slash_notMem

/-- The URL for values that last: under the base, a segment for each of them. -/
theorem urlOf_of_lasting (headers : Http.Headers) (hp : base.path = .segments list)
    (hl : Url.Slashless list) (h : q.Lasting) :
    ∃ url, (⟨base, headers⟩ : Client).urlOf q.segments = .ok url ∧
      url.path.text = Url.stem base.path.text ++ Url.Path.joined (q.segments.map (written base)) := by
  obtain ⟨values, hvalues⟩ := q.exists_segments_eq
  have hdots : ∀ v ∈ values, Url.significant v.toList ≠ ['.'] ∧ Url.significant v.toList ≠ ['.', '.'] := by
    intro v hv
    have hlast := h v (hvalues ▸ List.mem_cons_of_mem _ hv)
    simp only [List.mem_cons, List.not_mem_nil, or_false, not_or] at hlast
    exact hlast.2
  obtain ⟨url, hu, -, htext⟩ := Url.extend?_route_of_not_dots hp hl hdots
  have hnone := h.not_refused
  have hstart : written base Url.routeStart = Url.routeStart.toList := by
    unfold written
    cases base.kind <;> decide
  rw [hvalues] at hnone ⊢
  refine ⟨url, ?_, ?_⟩
  · simp only [urlOf, hnone, hu]
  · rw [htext, List.map_cons, hstart]
    rfl

/-- Values that differ in more than breaks are not asked for under one URL. -/
theorem significant_eq_of_text (hp : base.path = .segments list) (hl : Url.Slashless list)
    (hq : q.Lasting) (ho : other.Lasting)
    (hurl : (⟨base, headers⟩ : Client).urlOf q.segments = .ok url)
    (hurl' : (⟨base, headers⟩ : Client).urlOf other.segments = .ok url') (htext : url.text = url'.text) :
    (q.segments.map fun v => Url.significant v.toList) =
      other.segments.map fun v => Url.significant v.toList := by
  have hpath := Url.path_text_of_text (eq_of_urlOf_eq_ok hurl) (eq_of_urlOf_eq_ok hurl') htext
  obtain ⟨u, hu, hupath⟩ := urlOf_of_lasting headers hp hl hq
  obtain ⟨u', hu', hupath'⟩ := urlOf_of_lasting headers hp hl ho
  obtain rfl := Except.ok.inj (hu.symm.trans hurl)
  obtain rfl := Except.ok.inj (hu'.symm.trans hurl')
  rw [hupath, hupath', List.append_cancel_left_eq] at hpath
  have hsegments := Url.joined_inj (slashless_written base q) (slashless_written base other) hpath
  have hsplit : ∀ q : Query, q.segments.map (written base) =
      (q.segments.map fun v => Url.significant v.toList).map (Url.encode (Url.segmentSet base.kind)) :=
    fun _ => List.map_map.symm
  rw [hsplit, hsplit] at hsegments
  have hinjective := Url.encode_injective (Url.segmentSet_percent base.kind)
  exact (List.map_inj_right fun _ _ he => hinjective he).mp hsegments

/-- What the API is asked for, under any base URL and for any values. It is refused exactly when a
value is empty or dots, and the first such value is named; a base URL never stands in the way. What is
asked for differs from the base in its path only. Where the values last without their breaks, the path
is that of the base, without a slash at its end, and an encoded segment for each value, which decodes
to the value without its breaks; and values that still differ then have URLs that differ. -/
theorem urlOf_encodes_values [Url.Idna] {text : String} {base : Url} (h : ApiUrl.ofText text = .ok base)
    (headers : Http.Headers) (q : Query) :
    let urlOf := fun q : Query => (⟨base, headers⟩ : Client).urlOf q.segments
    ((∃ e, urlOf q = .error e) ↔ ∃ v ∈ q.segments, v = "" ∨ v = "." ∨ v = "..") ∧
      (∀ e, urlOf q = .error e → ∃ before bad after, q.segments = before ++ bad :: after ∧
        (bad = "" ∨ bad = "." ∨ bad = "..") ∧ (∀ v ∈ before, v ≠ "" ∧ v ≠ "." ∧ v ≠ "..") ∧
        e = .segment bad q.segments) ∧
      (∀ url, urlOf q = .ok url → url = { base with path := url.path }) ∧
      (q.Lasting → ∃ url segments, urlOf q = .ok url ∧
        url.path.text = Url.stem base.path.text ++ Url.Path.joined segments ∧
        (∀ s ∈ segments, Url.Encoded s) ∧
        segments.map Url.decode = q.segments.map fun v => Text.Utf8.encode (Url.significant v.toList)) ∧
      ∀ other url url', q.Lasting → other.Lasting → urlOf q = .ok url → urlOf other = .ok url' →
        (q.segments.map fun v => Url.significant v.toList) ≠
          (other.segments.map fun v => Url.significant v.toList) →
        url.text ≠ url'.text := by
  intro urlOf
  obtain ⟨list, hp, hl⟩ := Url.exists_segments_of_apiUrl h
  refine ⟨urlOf_error_iff hp, fun e he => urlOf_eq_error hp he, fun url hurl => eq_of_urlOf_eq_ok hurl,
    fun hq => ?_, fun other url url' hq ho hurl hurl' hdiffer htext => ?_⟩
  · obtain ⟨url, hurl, htext⟩ := urlOf_of_lasting headers hp hl hq
    refine ⟨url, _, hurl, htext, ?_, ?_⟩
    · intro s hs
      obtain ⟨v, -, rfl⟩ := List.mem_map.mp hs
      exact Url.encoded_encode base.kind _
    · simp only [List.map_map, Function.comp_def, written, Url.decode_encode (Url.segmentSet_percent _)]
  · exact hdiffer (significant_eq_of_text hp hl hq ho hurl hurl' htext)

def prefixedText : String := "http://me:pw@api.test:8080/api/v3?page=1"

def prefixedBase : Url :=
  ⟨"http".toList, some ⟨⟨"me".toList, some "pw".toList⟩, some (.name "api.test".toList), some 8080⟩, false,
    .segments ["api".toList, "v3".toList], some "page=1/".toList, none⟩

def oddRun : Query := .jobs ⟨"octo", "hello"⟩ "4\t2/é%"

theorem urlOf_encodes_odd_run :
    ApiUrl.ofText prefixedText = .ok prefixedBase ∧ oddRun.Lasting ∧
      ∃ url segments, (⟨prefixedBase, []⟩ : Client).urlOf oddRun.segments = .ok url ∧
        url.path.text = "/api/v3".toList ++ Url.Path.joined segments ∧ (∀ s ∈ segments, Url.Encoded s) ∧
        segments.map Url.decode = ["repos", "octo", "hello", "actions", "runs", "42/é%", "jobs"].map
          fun v => Text.Utf8.encode v.toList := by
  have hbase : ApiUrl.ofText prefixedText = .ok prefixedBase := rfl
  have hlasting : oddRun.Lasting := by
    simp [Query.Lasting, oddRun, Query.segments, Routes.runJobs, Url.significant, Url.isBreak]
  obtain ⟨-, -, -, hencodes, -⟩ := urlOf_encodes_values hbase [] oddRun
  exact ⟨hbase, hlasting, hencodes hlasting⟩

end Client
end AnnotationReport
