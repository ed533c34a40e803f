import AnnotationReport.Proofs.Api.RequestUrls
import AnnotationReport.Proofs.Url.RoundTrip

/-! # Base URLs that stand for themselves

The text of a base URL is given its slash before it is read. Where the slash ends up at the end of the
path, and nothing of the path goes with it, the URL is read from its own text again and requests lie right
below its path.
-/
namespace AnnotationReport.ApiUrl

open Url (Segment Slashless Tidy isDots tailText)

section Slashes

variable {first text : List Char} {c : Char}

/-- A text with one slash at its end and no more. -/
def EndsOnce (text : List Char) : Prop := ∃ r, text = r ++ ['/'] ∧ r.getLast? ≠ some '/'

theorem dropWhile_reverse_of_endsOnce {r : List Char} (h : r.getLast? ≠ some '/') :
    r.reverse.dropWhile (· = '/') = r.reverse := by
  rcases List.eq_nil_or_concat r with rfl | ⟨l, d, rfl⟩
  · rfl
  · rw [List.concat_eq_append, List.getLast?_concat] at h
    have hd : d ≠ '/' := fun he => h (congrArg some he)
    simp [hd]

theorem slashed_endsOnce (text : List Char) : EndsOnce (slashed text) := by
  refine ⟨_, rfl, ?_⟩
  intro hlast
  rw [List.getLast?_reverse] at hlast
  have hhead := List.head?_dropWhile_not (· = '/') text.reverse
  rw [hlast] at hhead
  simp at hhead

theorem slashed_eq_self_iff : slashed text = text ↔ EndsOnce text := by
  constructor
  · intro h
    exact h ▸ slashed_endsOnce text
  · rintro ⟨r, rfl, hr⟩
    have hdrop : (r ++ ['/']).reverse.dropWhile (· = '/') = r.reverse := by
      rw [List.reverse_append, List.reverse_singleton, List.singleton_append]
      simpa using dropWhile_reverse_of_endsOnce hr
    rw [slashed, hdrop, List.reverse_reverse]

theorem mem_slashed (h : c ∈ slashed text) : c ∈ text ∨ c = '/' := by
  rcases List.mem_append.mp h with h | h
  · exact .inl (List.mem_reverse.mp ((List.dropWhile_sublist _).subset (List.mem_reverse.mp h)))
  · exact .inr (List.mem_singleton.mp h)

/-- The slashes at the end of a text come after any other character. -/
theorem slashed_append_cons (hc : c ≠ '/') (first text : List Char) :
    slashed (first ++ c :: text) = first ++ c :: slashed text := by
  have hreverse : (first ++ c :: text).reverse = text.reverse ++ c :: first.reverse := by simp
  unfold slashed
  rw [hreverse, List.dropWhile_append]
  split
  · rename_i hempty
    rw [List.isEmpty_iff.mp hempty]
    simp [hc]
  · simp

theorem endsOnce_append_cons (hc : c ≠ '/') (first text : List Char) :
    EndsOnce (first ++ c :: text) ↔ EndsOnce text := by
  rw [← slashed_eq_self_iff, ← slashed_eq_self_iff, slashed_append_cons hc]
  simp

theorem endsOnce_concat {r : List Char} : EndsOnce (r ++ ['/']) ↔ r.getLast? ≠ some '/' := by
  constructor
  · rintro ⟨t, ht, hlast⟩
    obtain rfl := List.append_cancel_right ht
    exact hlast
  · intro h
    exact ⟨r, rfl, h⟩

theorem getLast?_append_of_ne_nil (hne : text ≠ []) (first : List Char) :
    (first ++ text).getLast? = text.getLast? := by
  rw [List.getLast?_append, List.getLast?_eq_some_getLast hne]
  rfl

end Slashes

section Bases

variable [Url.Idna] {text : String} {url url' : Url} {list : List Segment}

theorem ofText_eq_ok :
    ofText text = .ok url ↔ Url.ofChars (slashed text.toList) = .ok url ∧ url.isBase := by
  unfold ofText ofChars
  cases hu : Url.ofChars (slashed text.toList) with
  | error e => simp [Except.bind]
  | ok read =>
    simp only [Except.bind, Except.ok.injEq]
    constructor
    · intro h
      split at h
      · obtain rfl := Except.ok.inj h
        exact ⟨rfl, ‹_›⟩
      · cases h
    · rintro ⟨rfl, hbase⟩
      rw [if_pos hbase]

theorem exists_steady (h : ofText text = .ok url) : ∃ list, url.Steady list := by
  obtain ⟨hread, -⟩ := ofText_eq_ok.mp h
  obtain ⟨list, hp, -⟩ := Url.exists_segments_of_apiUrl h
  exact ⟨list, Url.steady_ofChars hread hp⟩

/-- The URL with the slash at the end of its text put where it belongs: after the fragment or the query. -/
def slashTail (url : Url) : Url :=
  match url.fragment, url.query with
  | some f, _ => { url with fragment := some (slashed f) }
  | none, some q => { url with query := some (slashed q) }
  | none, none => url

omit [Url.Idna] in
theorem slashed_chars (h : url.tailText ≠ []) : slashed url.chars = (slashTail url).chars := by
  cases hf : url.fragment with
  | some f =>
    have hchars : url.chars = url.requestChars ++ '#' :: f := by simp [Url.chars, hf]
    rw [hchars, slashed_append_cons (by decide)]
    simp [slashTail, hf, Url.chars, Url.requestChars]
  | none =>
    cases hq : url.query with
    | some q =>
      have hchars : url.chars = (url.scheme ++ ':' :: (url.frontText ++ url.path.text)) ++ '?' :: q := by
        simp [Url.chars_eq, tailText, hf, hq]
      rw [hchars, slashed_append_cons (by decide)]
      simp [slashTail, hf, hq, Url.chars_eq, tailText, Url.frontText]
    | none => simp [tailText, hf, hq] at h

theorem steady_slashTail (h : url.Steady list) : (slashTail url).Steady list := by
  unfold slashTail
  split
  · rename_i f hf
    refine { h with fragment := fun f' hf' => ?_ }
    obtain rfl := Option.some.inj hf'
    intro c hc
    rcases mem_slashed hc with hc | rfl
    · exact h.fragment f hf c hc
    · decide
  · rename_i q _ hq
    refine { h with query := fun q' hq' => ?_ }
    obtain rfl := Option.some.inj hq'
    intro c hc
    rcases mem_slashed hc with hc | rfl
    · exact h.query q hq c hc
    · change Url.querySet url.kind '/' = false
      cases url.kind <;> decide
  · exact h

omit [Url.Idna] in
theorem slashTail_parts (url : Url) : (slashTail url).path = url.path ∧ (slashTail url).kind = url.kind ∧
    (slashTail url).host? = url.host? := by
  unfold slashTail
  split <;> exact ⟨rfl, rfl, rfl⟩

/-- Where nothing follows the path, the slash at its end is that of the whole text, unless there is
nothing before it but the slashes of an authority without a text. -/
theorem endsOnce_chars (h : url.Steady list) (htail : url.tailText = []) (hends : EndsOnce url.path.text) :
    EndsOnce url.chars ∨ list = [[]] ∧ ∃ a, url.authority = some a ∧ a.text = [] := by
  obtain ⟨p, hp, hlast⟩ := hends
  have hchars : url.chars = (url.scheme ++ ':' :: (url.frontText ++ p)) ++ ['/'] := by
    simp [Url.chars_eq, htail, hp]
  rw [hchars, endsOnce_concat]
  by_cases hempty : p = []
  · have hlist : list = [[]] := by
      rw [h.path, hempty] at hp
      exact Url.joined_eq_slash.mp hp
    have hguarded : url.guarded = false := by simp [h.guarded, h.path, hlist, Url.needsGuard]
    cases ha : url.authority with
    | none =>
      have hfront : url.frontText = [] := by simp [Url.frontText, ha, hguarded]
      refine .inl ?_
      rw [hempty, hfront, List.append_nil, List.getLast?_concat]
      decide
    | some a =>
      have hfront : url.frontText = ['/', '/'] ++ a.text := by simp [Url.frontText, ha, hguarded]
      by_cases hatext : a.text = []
      · exact .inr ⟨hlist, a, rfl, hatext⟩
      · have hsplit : url.scheme ++ ':' :: (url.frontText ++ p) = (url.scheme ++ [':', '/', '/']) ++ a.text := by
          simp [hempty, hfront]
        refine .inl ?_
        rw [hsplit, getLast?_append_of_ne_nil hatext]
        intro hlast
        have hends := ((h.authority a ha).visible _ (List.mem_of_getLast? hlast)).2
        revert hends
        decide
  · have hsplit : url.scheme ++ ':' :: (url.frontText ++ p) = (url.scheme ++ ':' :: url.frontText) ++ p := by
      simp
    refine .inl ?_
    rwa [hsplit, getLast?_append_of_ne_nil hempty]

end Bases

section Regularity

variable [Url.Idna] {text : String} {url url' : Url} {list r : List Segment} {s : Segment}

/-- Reading the text of a file gives its path and its host: no dots are left in the path, and no drive
begins it after a host. -/
def FileKept (url : Url) : Prop :=
  url.kind = .file → ∀ list, url.path = .segments list →
    (∀ s ∈ list, ¬isDots s) ∧ (url.host?.isSome → ¬list.head?.any Url.Path.isDrive)

/-- What a base URL is to be: the path ends in one slash, the text stands for the URL, and what is asked
for lies right below the path. -/
structure Regular (url : Url) : Prop where
  ends : EndsOnce url.path.text
  reread : ofText url.text = .ok url
  below : ∀ (headers : Http.Headers) (q : Query), q.Lasting → ∃ url' rest,
    (⟨url, headers⟩ : Client).urlOf q.segments = .ok url' ∧
      url'.path.text = url.path.text ++ (Url.routeStart.toList ++ Url.Path.joined rest)

omit [Url.Idna] in
theorem stem_of_endsOnce {path : List Char} (h : EndsOnce path) : Url.stem path ++ ['/'] = path := by
  obtain ⟨r, rfl, hlast⟩ := h
  have hroot : r ≠ ['/'] := by
    rintro rfl
    exact hlast rfl
  simp [Url.stem, hroot]

omit [Url.Idna] in
/-- Requests go on after the slash at the end of the base. -/
theorem below_of_endsOnce (hp : url.path = .segments list) (hl : Slashless list)
    (hends : EndsOnce url.path.text) (headers : Http.Headers) {q : Query} (hq : q.Lasting) : ∃ url' rest,
    (⟨url, headers⟩ : Client).urlOf q.segments = .ok url' ∧
      url'.path.text = url.path.text ++ (Url.routeStart.toList ++ Url.Path.joined rest) := by
  obtain ⟨url', hurl, htext⟩ := Client.urlOf_of_lasting headers hp hl hq
  obtain ⟨values, hvalues⟩ := q.exists_segments_eq
  have hstart : Client.written url Url.routeStart = Url.routeStart.toList := by
    unfold Client.written
    cases url.kind <;> decide
  refine ⟨url', values.map (Client.written url), hurl, ?_⟩
  rw [htext, hvalues, List.map_cons, hstart]
  conv_rhs => rw [← stem_of_endsOnce hends]
  simp [Url.Path.joined]

theorem visible_slashed (h : url.Steady list) : ∀ c ∈ slashed url.chars, Url.isVisible c := by
  have hchars : ∀ c ∈ url.chars, Url.isVisible c := by
    rw [Url.chars_eq]
    exact List.forall_mem_append.mpr ⟨fun c hc => Url.isVisible_of_isSchemeChar (h.scheme.chars c hc).1,
      List.forall_mem_cons.mpr ⟨rfl, h.visible⟩⟩
  intro c hc
  rcases mem_slashed hc with hc | rfl
  · exact hchars c hc
  · decide

omit [Url.Idna] in
theorem scheme_of_file (hk : url.kind = .file) : url.scheme = "file".toList := by
  unfold Url.kind Url.schemeKind at hk
  split at hk
  · assumption
  · split at hk <;> cases hk

/-- The text of an authority without a text is three slashes, of which reading takes one only. -/
theorem text_of_bare (h : url.Steady [[]]) (htail : url.tailText = []) {a : Url.Authority}
    (ha : url.authority = some a) (hempty : a.text = [])
    (hread : Url.ofChars (slashed url.chars) = .ok url) : url.text = "file:///" := by
  have hguarded : url.guarded = false := by simp [h.guarded, ha]
  have hchars : url.chars = url.scheme ++ ':' :: ['/', '/', '/'] := by
    simp [Url.chars_eq, htail, h.path, Url.frontText, ha, hempty, hguarded, Url.Path.text, Url.Path.joined]
  have hhost : a.host = none := by
    cases hh : a.host with
    | none => rfl
    | some host =>
      have hne := ((h.authority a ha).host host hh).ne_nil
      simp [Url.Authority.text, hh, hne] at hempty
  cases hk : url.kind with
  | web => exact absurd hk ((h.authority a ha).alone hhost).1
  | file =>
    rw [Url.text, hchars, scheme_of_file hk]
    rfl
  | other =>
    have hslashed : slashed url.chars = url.scheme ++ ':' :: ['/'] := by
      rw [hchars, slashed_append_cons (by decide)]
      rfl
    have hscheme : Url.schemeKind url.scheme = .other := hk
    rw [hslashed, Url.ofChars_of_visible h.scheme (List.forall_mem_singleton.mpr rfl), Url.readBody] at hread
    simp only [hscheme] at hread
    have hauthority := congrArg Url.authority (Except.ok.inj hread)
    rw [ha] at hauthority
    cases hauthority

theorem fileKept_of_reread (h : url'.Steady (s :: r)) (hdots : ∀ t ∈ s :: r, ¬isDots t)
    (hkind : url'.kind = url.kind) (hp : url.path = .segments (s :: r))
    (hread : Url.ofChars url'.chars = .ok url) : FileKept url := by
  intro hk list hlist
  obtain rfl := Url.Path.segments.inj (hp.symm.trans hlist)
  refine ⟨hdots, fun hhost hs => ?_⟩
  have hnone := Url.host?_of_drive h hdots (hkind.trans hk) (by simpa using hs) hread
  simp [hnone] at hhost

/-- A base URL whose path ends in one slash is read from its own text just when nothing is lost of a
file and the slash at the end of the text is there already. -/
theorem reread_iff (h : url.Steady (s :: r)) (hends : EndsOnce url.path.text)
    (hdots : url.kind ≠ .file → ∀ t ∈ s :: r, ¬isDots t) :
    ofText url.text = .ok url ↔ FileKept url ∧ (EndsOnce url.chars ∨ url.text = "file:///") := by
  have hbase : url.isBase := by simp [Url.isBase, h.path]
  have htext : url.text.toList = url.chars := String.toList_ofList
  rw [ofText_eq_ok, htext]
  constructor
  · rintro ⟨hread, -⟩
    have hundotted := Url.undotted_ofChars hread h.path
      (.inr fun c hc => Url.isBreak_of_isVisible (visible_slashed h c hc))
    by_cases htail : url.tailText = []
    · rcases endsOnce_chars h htail hends with hchars | ⟨hlist, a, ha, hempty⟩
      · rw [slashed_eq_self_iff.mpr hchars] at hread
        exact ⟨fileKept_of_reread h hundotted rfl h.path hread, .inl hchars⟩
      · rw [hlist] at h hundotted
        refine ⟨fun _ list hp => ?_, .inr (text_of_bare h htail ha hempty hread)⟩
        obtain rfl := Url.Path.segments.inj (h.path.symm.trans hp)
        exact ⟨hundotted, fun _ => by decide⟩
    · rw [slashed_chars htail] at hread
      obtain ⟨-, hkind, hhost⟩ := slashTail_parts url
      have hsteady := steady_slashTail h
      have hkept := fileKept_of_reread hsteady hundotted hkind h.path hread
      have hown : Url.ofChars (slashTail url).chars = .ok (slashTail url) :=
        Url.ofChars_chars hsteady hundotted fun hk hhost' => by
          rw [hkind] at hk
          rw [hhost] at hhost'
          simpa using (hkept hk _ h.path).2 hhost'
      have heq := Except.ok.inj (hread.symm.trans hown)
      refine ⟨hkept, .inl (slashed_eq_self_iff.mp ?_)⟩
      rw [slashed_chars htail, ← heq]
  · rintro ⟨hkept, hchars⟩
    have hall : ∀ t ∈ s :: r, ¬isDots t := by
      by_cases hk : url.kind = .file
      · exact (hkept hk _ h.path).1
      · exact hdots hk
    have hread := Url.ofChars_chars h hall fun hk hhost => by simpa using (hkept hk _ h.path).2 hhost
    refine ⟨?_, hbase⟩
    rcases hchars with hchars | hchars
    · rw [slashed_eq_self_iff.mpr hchars, hread]
    · rw [← htext, hchars] at hread ⊢
      exact hread

/-- A base URL is what it is to be just when its path ends in one slash, nothing is lost of a file, and
the slash at the end of the text is there already. -/
theorem regular_iff (h : ofText text = .ok url) :
    Regular url ↔
      EndsOnce url.path.text ∧ FileKept url ∧ (EndsOnce url.chars ∨ url.text = "file:///") := by
  obtain ⟨list, hsteady⟩ := exists_steady h
  have hslashless : Slashless list := Url.pathSlashless_ofChars (ofText_eq_ok.mp h).1 list hsteady.path
  have hdots : url.kind ≠ .file → ∀ t ∈ list, ¬isDots t := fun hk =>
    Url.undotted_ofChars (ofText_eq_ok.mp h).1 hsteady.path (.inl hk)
  have hreread : EndsOnce url.path.text →
      (ofText url.text = .ok url ↔ FileKept url ∧ (EndsOnce url.chars ∨ url.text = "file:///")) := by
    intro hends
    cases list with
    | nil =>
      rw [hsteady.path] at hends
      obtain ⟨r, hr, -⟩ := hends
      simp [Url.Path.text, Url.Path.joined] at hr
    | cons s r => exact reread_iff hsteady hends hdots
  constructor
  · rintro ⟨hends, hread, -⟩
    exact ⟨hends, (hreread hends).mp hread⟩
  · rintro ⟨hends, hkept⟩
    exact ⟨hends, (hreread hends).mpr hkept, fun headers q hq =>
      below_of_endsOnce hsteady.path hslashless hends headers hq⟩

end Regularity

end AnnotationReport.ApiUrl
