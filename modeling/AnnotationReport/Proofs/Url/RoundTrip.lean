import AnnotationReport.Proofs.Url.Paths

/-! # URLs are read back

The text of a URL that was read is read as that URL again, unless a break in the text it came from has
left dots in the path of a file, or a drive begins the path of a file that has a host.
-/
namespace AnnotationReport.Url

section Steadiness

def querySet (kind : SchemeKind) : EncodeSet :=
  if kind = .other then EncodeSet.query else EncodeSet.specialQuery

/-- A URL as it is written, with all its parts in the form that reading gives them. -/
structure Steady [Idna] (url : Url) (list : List Segment) : Prop where
  scheme : IsScheme url.scheme
  authority : ∀ a, url.authority = some a → a.Steady url.scheme
  hosted : url.authority = none → url.kind = .other
  guarded : url.guarded = (url.authority.isNone && needsGuard url.path)
  path : url.path = .segments list
  tidy : ∀ s ∈ list, Tidy url.kind s
  query : ∀ q, url.query = some q → ∀ c ∈ q, querySet url.kind c = false
  fragment : ∀ f, url.fragment = some f → ∀ c ∈ f, EncodeSet.fragment c = false
  file : url.kind = .file → (list = [[]] ∨ ∃ s r, list = s :: r ∧ s ≠ []) ∧
    ∃ host, url.authority = some ⟨.nobody, host, none⟩ ∧ host ≠ some (.name "localhost".toList)

variable {text scheme rest : List Char} {url : Url} {list : List Segment}

theorem clean_readQuery {kind : SchemeKind} {q : List Char} (h : readQuery kind text = some q) :
    ∀ c ∈ q, querySet kind c = false := by
  unfold readQuery at h
  dsimp only at h
  split at h
  · obtain rfl := Option.some.inj h
    refine clean_encode ?_ ?_ _
    · cases kind <;> decide
    · cases kind <;> decide
  · cases h

theorem clean_readFragment {f : List Char} (h : readFragment text = some f) :
    ∀ c ∈ f, EncodeSet.fragment c = false := by
  unfold readFragment at h
  split at h
  · cases h
  · obtain rfl := Option.some.inj h
    exact clean_encode (by decide) (by decide) _

variable [Idna]

theorem steady_assemble {authority : Option Authority} (hs : IsScheme scheme)
    (ha : ∀ a, authority = some a → a.Steady scheme) (hhosted : authority = none → schemeKind scheme = .other)
    (htidy : ∀ s ∈ list, Tidy (schemeKind scheme) s)
    (hfile : schemeKind scheme = .file → (list = [[]] ∨ ∃ s r, list = s :: r ∧ s ≠ []) ∧
      ∃ host, authority = some ⟨.nobody, host, none⟩ ∧ host ≠ some (.name "localhost".toList)) :
    (assemble scheme authority (.segments list) rest).Steady list where
  scheme := hs
  authority := ha
  hosted := hhosted
  guarded := rfl
  path := rfl
  tidy := htidy
  query _ hq := clean_readQuery hq
  fragment _ hf := clean_readFragment hf
  file := hfile

theorem steady_fileAuthority (hk : schemeKind scheme = .file) {host : Option Host}
    (h : ∀ h, host = some h → ∃ t, Host.ofWeb t = .ok h) : (⟨.nobody, host, none⟩ : Authority).Steady scheme where
  credentials := ⟨by simp [Credentials.nobody], by simp [Credentials.nobody]⟩
  host h' hh := by
    obtain ⟨t, ht⟩ := h h' hh
    rw [hk]
    exact Host.steady_of_ofWeb ht
  port := by simp
  alone hh := ⟨by simp [hk], by rw [show host = none from hh]⟩

/-- Whatever is read as a URL is in the form that it is written in. -/
theorem steady_ofChars (h : Url.ofChars text = .ok url) (hp : url.path = .segments list) :
    url.Steady list := by
  obtain ⟨hs, houtcome⟩ := outcome_ofChars h
  generalize url.scheme = scheme at hs houtcome
  cases houtcome with
  | hosted hk ha hpath =>
    obtain rfl := Path.segments.inj hp
    have hsteady := (readAuthority_eq_ok hk ha).1
    refine steady_assemble hs (by simpa using hsteady) (by simp) ?_ fun he => absurd he hk
    rcases hpath with rfl | ⟨t, rfl⟩
    · simp
    · exact fun s hm => (tidy_readSegments hk t s hm).1
  | @file path host hk _ hhost =>
    obtain rfl := Path.segments.inj hp
    have hsteady := steady_fileAuthority hk fun h hh => (hhost h hh).2
    refine steady_assemble hs (by simpa using hsteady) (by simp) (hk ▸ tidy_fileSegments path) fun _ =>
      ⟨fileSegments_starts path, host, rfl, fun hh => (hhost _ hh).1 rfl⟩
  | @rooted rest t hk =>
    obtain rfl := Path.segments.inj hp
    have htidy : ∀ s ∈ readSegments .other t, Tidy .other s ∧ ¬isDots s := tidy_readSegments (by simp) t
    exact steady_assemble hs (by simp) (fun _ => hk) (fun s hm => hk ▸ (htidy s hm).1) (by simp [hk])
  | rootless _ => cases hp

/-- Dots are left in the path of a file alone, and only by breaks. -/
theorem undotted_ofChars (h : Url.ofChars text = .ok url) (hp : url.path = .segments list)
    (hbreak : url.kind ≠ .file ∨ ∀ c ∈ text, isBreak c = false) : ∀ s ∈ list, ¬isDots s := by
  obtain ⟨-, houtcome⟩ := outcome_ofChars h
  generalize url.scheme = scheme at houtcome
  cases houtcome with
  | hosted hk _ hpath =>
    obtain rfl := Path.segments.inj hp
    rcases hpath with rfl | ⟨t, rfl⟩
    · simp
    · exact fun s hm => (tidy_readSegments hk t s hm).2
  | file hk hsub _ =>
    obtain rfl := Path.segments.inj hp
    rcases hbreak with hne | hbreak
    · exact absurd hk hne
    · exact undotted_fileSegments fun c hc => hbreak c (hsub hc)
  | @rooted _ t _ =>
    obtain rfl := Path.segments.inj hp
    have htidy : ∀ s ∈ readSegments .other t, Tidy .other s ∧ ¬isDots s := tidy_readSegments (by simp) t
    exact fun s hm => (htidy s hm).2
  | rootless _ => cases hp

end Steadiness

section Texts

variable {url : Url} {list : List Segment} {scheme body : List Char} {c : Char}

def tailText (url : Url) : List Char :=
  url.query.elim [] ('?' :: ·) ++ url.fragment.elim [] ('#' :: ·)

/-- What stands between the colon of the scheme and the path. -/
def frontText (url : Url) : List Char :=
  (url.authority.elim [] fun a => '/' :: '/' :: a.text) ++ if url.guarded then ['/', '.'] else []

theorem chars_eq (url : Url) :
    url.chars = url.scheme ++ ':' :: (url.frontText ++ (url.path.text ++ url.tailText)) := by
  simp [chars, requestChars, frontText, tailText, List.append_assoc]

theorem isVisible_of_isSchemeChar (h : isSchemeChar c) : isVisible c := by
  have hall : ∀ n : Fin 128, isSchemeChar (Char.ofNat n) → isVisible (Char.ofNat n) := by decide
  exact Text.Utf8.forall_ascii (p := fun c => isSchemeChar c → isVisible c) hall (ascii_of_isSchemeChar h) h

theorem of_clean_query {kind : SchemeKind} (h : querySet kind c = false) : isVisible c ∧ c ≠ '#' := by
  have hquery : EncodeSet.query c = false := by
    unfold querySet at h
    split at h
    · exact h
    · exact (of_including h).1
  obtain ⟨hcontrols, hchars⟩ := of_including hquery
  simp only [List.mem_cons, List.not_mem_nil, or_false, not_or] at hchars
  exact ⟨isVisible_of_controls hcontrols hchars.1, hchars.2.2.1⟩

theorem isTail_tailText (url : Url) : IsTail url.tailText := by
  unfold IsTail tailText
  cases url.query with
  | some q => simp [endsPath]
  | none => cases url.fragment <;> simp [endsPath]

variable [Idna]

theorem readFragment_tailText (h : url.Steady list) : readFragment url.tailText = url.fragment := by
  have hfragment : readFragment (url.fragment.elim [] ('#' :: ·)) = url.fragment := by
    cases hf : url.fragment with
    | none => rfl
    | some f =>
      have hself := encode_eq_self (h.fragment f hf)
      simp [readFragment, hself]
  unfold tailText
  cases hq : url.query with
  | none => exact hfragment
  | some q =>
    have hplain : ∀ d ∈ '?' :: q, (d != '#') = true := by
      refine List.forall_mem_cons.mpr ⟨rfl, fun d hd => ?_⟩
      simpa using (of_clean_query (h.query q hq d hd)).2
    rw [Option.elim_some]
    unfold readFragment at hfragment ⊢
    rw [List.dropWhile_append_of_pos hplain]
    exact hfragment

theorem readQuery_tailText (h : url.Steady list) : readQuery url.kind url.tailText = url.query := by
  unfold tailText
  cases hq : url.query with
  | none => cases url.fragment <;> rfl
  | some q =>
    have hclean := h.query q hq
    have hplain : ∀ d ∈ q, (d != '#') = true := fun d hd => by
      simpa using (of_clean_query (hclean d hd)).2
    have hstop : ∀ d ∈ (url.fragment.elim [] ('#' :: ·)).head?, (d != '#') = false := by
      cases url.fragment <;> simp
    have hself : encode (querySet url.kind) q = q := encode_eq_self hclean
    simp only [Option.elim_some, List.cons_append, readQuery]
    rw [(Text.takeWhile_append_stop hplain hstop).1]
    exact congrArg some hself

/-- The text from the path on gives back the query and the fragment. -/
theorem assemble_text (h : url.Steady list) (hbody : ∀ c ∈ body, endsPath c = false) :
    assemble url.scheme url.authority url.path (body ++ url.tailText) = url := by
  have hstop : ∀ c ∈ url.tailText.head?, (!endsPath c) = false := fun c hc => by
    simp [isTail_tailText url c hc]
  have htail := (Text.takeWhile_append_stop (p := (!endsPath ·)) (by simpa using hbody) hstop).2
  have hquery : readQuery (schemeKind url.scheme) url.tailText = url.query := readQuery_tailText h
  rw [assemble, htail, hquery, readFragment_tailText h, ← h.guarded]

theorem visible_tailText (h : url.Steady list) : ∀ c ∈ url.tailText, isVisible c := by
  refine List.forall_mem_append.mpr ⟨?_, ?_⟩
  · cases hq : url.query with
    | none => simp
    | some q => exact List.forall_mem_cons.mpr ⟨rfl, fun c hc => (of_clean_query (h.query q hq c hc)).1⟩
  · cases hf : url.fragment with
    | none => simp
    | some f => exact List.forall_mem_cons.mpr ⟨rfl, fun c hc => of_clean_fragment (h.fragment f hf c hc)⟩

theorem visible_frontText (h : url.Steady list) : ∀ c ∈ url.frontText, isVisible c := by
  refine List.forall_mem_append.mpr ⟨?_, ?_⟩
  · cases ha : url.authority with
    | none => simp
    | some a =>
      exact List.forall_mem_cons.mpr ⟨rfl, List.forall_mem_cons.mpr
        ⟨rfl, fun c hc => ((h.authority a ha).visible c hc).1⟩⟩
  · split
    · simp [isVisible]
    · simp

omit [Idna] in
theorem visible_joined {kind : SchemeKind} (h : ∀ s ∈ list, Tidy kind s) :
    ∀ c ∈ Path.joined list, isVisible c ∧ endsPath c = false := by
  intro c hc
  obtain ⟨s, hs, hm⟩ := List.mem_flatMap.mp hc
  rcases List.mem_cons.mp hm with rfl | hm
  · decide
  · exact of_clean_path (h s hs c hm).1

/-- A URL is written in visible characters, so reading trims and skips none of them. -/
theorem Steady.visible (h : url.Steady list) :
    ∀ c ∈ url.frontText ++ (url.path.text ++ url.tailText), isVisible c := by
  have hpath : ∀ c ∈ url.path.text, isVisible c := by
    rw [h.path]
    exact fun c hc => (visible_joined h.tidy c hc).1
  exact List.forall_mem_append.mpr ⟨visible_frontText h, List.forall_mem_append.mpr ⟨hpath, visible_tailText h⟩⟩

end Texts

section Schemes

variable {scheme body text : List Char}

def readBody [Idna] (scheme body : List Char) : Except Error Url :=
  match schemeKind scheme with
  | .web => readHosted scheme (body.dropWhile (isSlash true))
  | .file => readFile scheme body
  | .other => readOther scheme body

theorem dropWhile_eq_self {p : Char → Bool} (h : ∀ c ∈ text, p c = false) : text.dropWhile p = text := by
  cases text with
  | nil => rfl
  | cons c r => simp [h c List.mem_cons_self]

theorem trimmed_eq_self (h : ∀ c ∈ text, isVisible c) : trimmed text = text := by
  have hmargin : ∀ c ∈ text, isMargin c = false := by
    intro c hc
    have hv := h c hc
    simp only [isVisible, Bool.and_eq_true, decide_eq_true_eq] at hv
    simp only [isMargin, decide_eq_false_iff_not]
    omega
  have hreverse : ∀ c ∈ text.reverse, isMargin c = false := fun c hc => hmargin c (List.mem_reverse.mp hc)
  rw [trimmed, dropWhile_eq_self hmargin, dropWhile_eq_self hreverse, List.reverse_reverse]

theorem significant_eq_self (h : ∀ c ∈ text, isVisible c) : significant text = text :=
  significant_eq fun c hc => isBreak_of_isVisible (h c hc)

theorem map_toLower (hs : IsScheme scheme) : scheme.map Char.toLower = scheme :=
  (List.map_congr_left fun c hc => (hs.chars c hc).2).trans (List.map_id' scheme)

theorem splitScheme?_append (hs : IsScheme scheme) (body : List Char) :
    splitScheme? (scheme ++ ':' :: body) = some (scheme, body) := by
  have hstop : ∀ c ∈ (':' :: body).head?, isSchemeChar c = false := by
    intro c hc
    cases hc
    rfl
  obtain ⟨htake, hdrop⟩ := Text.takeWhile_append_stop (fun c hc => (hs.chars c hc).1) hstop
  obtain ⟨c, hc, halpha⟩ := hs.letter
  have hhead : (scheme ++ ':' :: body).head?.any Char.isAlpha := by
    rw [List.head?_append, hc]
    exact halpha
  rw [splitScheme?, hdrop]
  simp only [htake, if_pos hhead, map_toLower hs]

theorem ofChars_of_visible [Idna] (hs : IsScheme scheme) (h : ∀ c ∈ body, isVisible c) :
    Url.ofChars (scheme ++ ':' :: body) = readBody scheme body := by
  have hall : ∀ c ∈ scheme ++ ':' :: body, isVisible c :=
    List.forall_mem_append.mpr ⟨fun c hc => isVisible_of_isSchemeChar (hs.chars c hc).1,
      List.forall_mem_cons.mpr ⟨rfl, h⟩⟩
  have hcolon : ∀ c ∈ scheme, (c != ':') = true := by
    intro c hc
    have hne : c ≠ ':' := by
      rintro rfl
      exact absurd (hs.chars _ hc).1 (by decide)
    simpa using hne
  have hafter : (scheme ++ ':' :: body).dropWhile (· != ':') = ':' :: body :=
    (Text.takeWhile_append_stop hcolon (by simp)).2
  rw [Url.ofChars, trimmed_eq_self hall, significant_eq_self hall, splitScheme?_append hs]
  simp only [hafter, List.drop_one, List.tail_cons]
  unfold readBody
  cases schemeKind scheme <;> rfl

end Schemes

section Kinds

variable {url : Url} {s : Segment} {r list : List Segment} {a : Authority}

theorem endsAuthority_of_true {c : Char} (h : endsAuthority true c = false) (web : Bool) :
    endsAuthority web c = false := by
  cases web with
  | true => exact h
  | false =>
    simp only [endsAuthority, isSlash, Bool.or_eq_false_iff] at h ⊢
    exact ⟨⟨h.1.1, rfl⟩, h.2⟩

/-- The path is where an authority ends. -/
theorem split_authority (h : ∀ c ∈ a.text, endsAuthority true c = false) (web : Bool) (rest : List Char) :
    (a.text ++ '/' :: rest).takeWhile (!endsAuthority web ·) = a.text ∧
      (a.text ++ '/' :: rest).dropWhile (!endsAuthority web ·) = '/' :: rest := by
  refine Text.takeWhile_append_stop (fun c hc => ?_) fun c hc => ?_
  · simp [endsAuthority_of_true (h c hc) web]
  · cases hc
    rfl

variable [Idna]

theorem assemble_path (h : url.Steady list) :
    assemble url.scheme url.authority (.segments list) (Path.joined list ++ url.tailText) = url := by
  rw [← h.path]
  exact assemble_text h fun c hc => (visible_joined h.tidy c hc).2

theorem readHosted_text (h : url.Steady (s :: r)) (hk : url.kind ≠ .file) (ha : url.authority = some a)
    (hdots : ∀ t ∈ s :: r, ¬isDots t) :
    readHosted url.scheme (a.text ++ (Path.joined (s :: r) ++ url.tailText)) = .ok url := by
  have hcons : Path.joined (s :: r) ++ url.tailText = '/' :: (s ++ Path.joined r ++ url.tailText) := by
    simp [Path.joined]
  have hsteady := h.authority a ha
  obtain ⟨hplace, hafter⟩ := split_authority (fun c hc => (hsteady.visible c hc).2)
    (schemeKind url.scheme = .web) (s ++ Path.joined r ++ url.tailText)
  have hsegments : readSegments (schemeKind url.scheme) (s ++ Path.joined r ++ url.tailText) = s :: r :=
    readSegments_joined hk (fun t ht => ⟨h.tidy t ht, hdots t ht⟩) (isTail_tailText url)
  have hslash : isSlash (schemeKind url.scheme = .web) '/' = true := by simp [isSlash]
  have hpath := assemble_path h
  rw [hcons, ha] at hpath
  rw [hcons, readHosted]
  simp only [hplace, hafter, readAuthority_text hk hsteady, bind, Except.bind, pure, Except.pure,
    List.nil_append, List.head?_cons, Option.any_some, List.drop_one, List.tail_cons]
  rw [if_pos hslash, hsegments, hpath]

theorem readOther_slash {scheme t : List Char} (h : t.head? ≠ some '/') :
    readOther scheme ('/' :: t) = .ok (assemble scheme none (.segments (readSegments .other t)) ('/' :: t)) := by
  unfold readOther
  split
  · rename_i he
    obtain rfl := (List.cons.inj he).2
    exact absurd rfl h
  · rename_i he
    obtain rfl := (List.cons.inj he).2
    rfl
  · rename_i hne
    exact absurd rfl (hne t)

omit [Idna] in
/-- The dot that guards a path adds nothing to it. -/
theorem readSegments_guarded {tail : List Char} (h : ∀ t ∈ s :: r, Tidy .other t ∧ ¬isDots t)
    (htail : IsTail tail) : readSegments .other ('.' :: (Path.joined (s :: r) ++ tail)) = s :: r := by
  have hdot : Tidy .other ['.'] := by
    intro c hc
    obtain rfl := List.mem_singleton.mp hc
    decide
  have htidy : ∀ t ∈ ['.'] :: s :: r, Tidy .other t :=
    List.forall_mem_cons.mpr ⟨hdot, fun t ht => (h t ht).1⟩
  have hraw : rawSegments (SchemeKind.other = .web) (['.'] ++ Path.joined (s :: r) ++ tail) =
      ['.'] :: s :: r := rawSegments_joined (parts_of_tidy htidy) htail
  have hpush : Path.push false [] ['.'] = [] := by decide
  have hall : Path.pushAll [] (s :: r) = [] ++ s :: r := pushAll_eq fun t ht => (h t ht).2
  rw [List.singleton_append, List.cons_append] at hraw
  rw [readSegments, hraw, map_encode_eq htidy, Path.pushAll, hpush, hall, List.nil_append]
  simp

omit [Idna] in
/-- Where nothing guards it, a path does not begin like an authority. -/
theorem head?_path_ne_slash {tail : List Char} (hguard : needsGuard (.segments (s :: r)) = false)
    (hs : Tidy .other s) (htail : IsTail tail) : (s ++ Path.joined r ++ tail).head? ≠ some '/' := by
  intro hhead
  cases s with
  | nil =>
    cases r with
    | nil =>
      have hends := htail '/' hhead
      revert hends
      decide
    | cons _ _ => cases hguard
  | cons c t =>
    obtain rfl := Option.some.inj hhead
    have hslash := (hs '/' List.mem_cons_self).2
    revert hslash
    decide

theorem readOther_text (h : url.Steady (s :: r)) (hk : url.kind = .other) (hdots : ∀ t ∈ s :: r, ¬isDots t) :
    readOther url.scheme (url.frontText ++ (Path.joined (s :: r) ++ url.tailText)) = .ok url := by
  cases ha : url.authority with
  | some a =>
    have hguarded : url.guarded = false := by simp [h.guarded, ha]
    have hfront : url.frontText = '/' :: '/' :: a.text := by simp [frontText, ha, hguarded]
    rw [hfront]
    exact readHosted_text h (by simp [hk]) ha hdots
  | none =>
    have htail := isTail_tailText url
    have hall : ∀ t ∈ s :: r, Tidy .other t ∧ ¬isDots t := fun t ht => ⟨hk ▸ h.tidy t ht, hdots t ht⟩
    have hguarded : url.guarded = needsGuard (.segments (s :: r)) := by simp [h.guarded, ha, h.path]
    cases hg : url.guarded with
    | true =>
      have hfront : url.frontText = ['/', '.'] := by simp [frontText, ha, hg]
      have hbody : ∀ c ∈ '/' :: '.' :: Path.joined (s :: r), endsPath c = false :=
        List.forall_mem_cons.mpr ⟨rfl, List.forall_mem_cons.mpr
          ⟨rfl, fun c hc => (visible_joined h.tidy c hc).2⟩⟩
      have hassemble := assemble_text h hbody
      rw [ha, h.path] at hassemble
      rw [hfront]
      simp only [List.cons_append, List.nil_append] at hassemble ⊢
      rw [readOther_slash (by simp), readSegments_guarded hall htail, hassemble]
    | false =>
      have hfront : url.frontText = [] := by simp [frontText, ha, hg]
      have hjoined : Path.joined (s :: r) ++ url.tailText = '/' :: (s ++ Path.joined r ++ url.tailText) := by
        simp [Path.joined]
      have hhead := head?_path_ne_slash (hguarded ▸ hg) (hall s List.mem_cons_self).1 htail
      have hassemble := assemble_path h
      rw [ha] at hassemble
      rw [hfront, List.nil_append, hjoined, readOther_slash hhead,
        readSegments_joined (by simp) hall htail, ← hjoined, hassemble]

end Kinds

section Files

variable {url : Url} {s : Segment} {r : List Segment} {scheme rest : List Char} {host : Option Host}

theorem Host.Steady.not_isDrive {read : List Char → Except Error Host} {host : Host}
    (h : host.Steady read) : ¬Path.isDrive host.text := by
  intro hdrive
  obtain ⟨c, d, htext, hc, hd⟩ := isDrive_cases hdrive
  have hvisible := h.visible d (by simp [htext])
  have henclosed := h.enclosed
  rw [htext] at henclosed
  generalize hpair : [c, d] = pair at henclosed
  rcases hd with rfl | rfl
  · cases henclosed with
    | bare hcolon _ => exact hcolon (hpair ▸ by simp)
    | brackets _ _ =>
      obtain rfl := (List.cons.inj hpair).1
      revert hc
      decide
  · revert hvisible
    decide

variable [Idna]

theorem fileHost_text (h : ∀ host', host = some host' → Host.Steady Host.ofWeb host')
    (hname : host ≠ some (.name "localhost".toList)) :
    ¬Path.isDrive (host.elim [] Host.text) ∧ fileHost (host.elim [] Host.text) = .ok host := by
  cases host with
  | none => exact ⟨by decide, rfl⟩
  | some host =>
    have hsteady := h host rfl
    have hne : host ≠ .name "localhost".toList := fun he => hname (congrArg some he)
    have hempty : ¬host.text.isEmpty = true := by simpa using hsteady.ne_nil
    refine ⟨hsteady.not_isDrive, ?_⟩
    rw [Option.elim_some, fileHost, if_neg hempty, hsteady.read_text]
    simp only [Except.map, if_neg hne]

theorem fileUrl_text (h : url.Steady (s :: r)) (hk : url.kind = .file) (hdots : ∀ t ∈ s :: r, ¬isDots t)
    (hs : ¬Path.isDrive s) :
    fileUrl url.scheme (if Path.isDrive s then none else url.host?)
      (s ++ Path.joined r ++ url.tailText) = url := by
  obtain ⟨hstart, host, ha, -⟩ := h.file hk
  have hhost : url.host? = host := by simp [host?, ha]
  have htidy : ∀ t ∈ s :: r, Tidy .file t ∧ ¬isDots t := fun t ht => ⟨hk ▸ h.tidy t ht, hdots t ht⟩
  have hbody : ∀ c ∈ s ++ Path.joined r, isVisible c ∧ endsPath c = false :=
    List.forall_mem_append.mpr ⟨fun c hc => of_clean_path (h.tidy s List.mem_cons_self c hc).1,
      visible_joined fun t ht => h.tidy t (List.mem_cons_of_mem s ht)⟩
  have hall : ∀ c ∈ s ++ Path.joined r ++ url.tailText, isVisible c :=
    List.forall_mem_append.mpr ⟨fun c hc => (hbody c hc).1, visible_tailText h⟩
  have hfirst : s :: r = [[]] ∨ s ≠ [] := hstart.imp_right fun ⟨_, _, he, hne⟩ => (List.cons.inj he).1 ▸ hne
  have hassemble := assemble_text h fun c hc => (hbody c hc).2
  rw [ha, h.path] at hassemble
  rw [if_neg hs, hhost, fileUrl, significant_eq_self hall,
    fileSegments_joined htidy (isTail_tailText url) hfirst hs, hassemble]

theorem readFile_slashes (scheme rest : List Char) :
    readFile scheme ('/' :: '/' :: rest) = readFileHost scheme rest := rfl

/-- A file is read back with its path, and with its host unless a drive begins the path. -/
theorem readFile_text (h : url.Steady (s :: r)) (hk : url.kind = .file) (hdots : ∀ t ∈ s :: r, ¬isDots t) :
    readFile url.scheme (url.frontText ++ (Path.joined (s :: r) ++ url.tailText)) =
      .ok (if url.host? = none then url
        else fileUrl url.scheme (if Path.isDrive s then none else url.host?)
          (s ++ Path.joined r ++ url.tailText)) := by
  obtain ⟨hstart, host, ha, hname⟩ := h.file hk
  have hsteady := h.authority _ ha
  have hhost : url.host? = host := by simp [host?, ha]
  have hguarded : url.guarded = false := by simp [h.guarded, ha]
  have htext : (⟨.nobody, host, none⟩ : Authority).text = host.elim [] Host.text := by
    cases host <;> simp [Authority.text, Credentials.text]
  have hfront : url.frontText = '/' :: '/' :: host.elim [] Host.text := by
    simp [frontText, ha, hguarded, htext]
  have hjoined : Path.joined (s :: r) ++ url.tailText = '/' :: (s ++ Path.joined r ++ url.tailText) := by
    simp [Path.joined]
  have htidy : ∀ t ∈ s :: r, Tidy .file t ∧ ¬isDots t := fun t ht => ⟨hk ▸ h.tidy t ht, hdots t ht⟩
  have htail := isTail_tailText url
  have hvisible : ∀ c ∈ host.elim [] Host.text, isVisible c ∧ endsAuthority true c = false :=
    htext ▸ hsteady.visible
  have hplace := significant_eq_self fun c hc => (hvisible c hc).1
  obtain ⟨hbefore, hafter⟩ := split_authority (htext ▸ fun c hc => (hvisible c hc).2) true
    (s ++ Path.joined r ++ url.tailText)
  rw [htext] at hbefore hafter
  obtain ⟨hdrive, hread⟩ := fileHost_text (fun h' hh => by
    have hsteadyHost := hsteady.host h' hh
    rwa [show schemeKind url.scheme = .file from hk] at hsteadyHost) hname
  rw [hfront, hjoined, List.cons_append, List.cons_append, readFile_slashes, readFileHost]
  simp only [hbefore, hafter, hplace, if_neg hdrive, hread, Except.map, hhost]
  cases host with
  | none =>
    have hpath := assemble_path h
    have hall : ∀ c ∈ Path.joined (s :: r) ++ url.tailText, isVisible c :=
      List.forall_mem_append.mpr ⟨fun c hc => (visible_joined h.tidy c hc).1, visible_tailText h⟩
    rw [ha] at hpath
    rw [if_pos rfl, ← hjoined, fileUrl, significant_eq_self hall,
      fileSegments_slash_joined htidy htail hstart, hpath]
  | some host =>
    have hslash : isSlash true '/' = true := rfl
    simp only [List.head?_cons, Option.any_some, hslash, if_true, List.drop_one, List.tail_cons,
      beginsWithDrive_joined htidy htail, reduceCtorEq, if_false]
    cases Path.isDrive s <;> rfl

end Files

section WholeText

variable [Idna]

variable {url url' : Url} {list : List Segment} {s : Segment} {r : List Segment}

theorem readWeb_text (h : url.Steady (s :: r)) (hk : url.kind = .web) (hdots : ∀ t ∈ s :: r, ¬isDots t) :
    readHosted url.scheme ((url.frontText ++ (Path.joined (s :: r) ++ url.tailText)).dropWhile (isSlash true)) =
      .ok url := by
  obtain ⟨a, ha⟩ : ∃ a, url.authority = some a := by
    cases ha : url.authority with
    | none => exact absurd (hk.symm.trans (h.hosted ha)) (by simp)
    | some a => exact ⟨a, rfl⟩
  have hsteady := h.authority a ha
  have hguarded : url.guarded = false := by simp [h.guarded, ha]
  have hfront : url.frontText = ['/', '/'] ++ a.text := by simp [frontText, ha, hguarded]
  obtain ⟨c, t, hct⟩ := List.exists_cons_of_ne_nil (hsteady.text_ne_nil hk)
  have hslash : isSlash true c = false := by
    have hends := (hsteady.visible c (by simp [hct])).2
    exact (Bool.or_eq_false_iff.mp hends).1
  have hstop : ∀ d ∈ (a.text ++ (Path.joined (s :: r) ++ url.tailText)).head?, isSlash true d = false := by
    intro d hd
    rw [hct] at hd
    cases hd
    exact hslash
  rw [hfront, List.append_assoc, (Text.takeWhile_append_stop (by simp [isSlash]) hstop).2]
  exact readHosted_text h (by simp [hk]) ha hdots

theorem ofChars_chars_eq (h : url.Steady list) :
    Url.ofChars url.chars = readBody url.scheme (url.frontText ++ (Path.joined list ++ url.tailText)) := by
  have hvisible := h.visible
  rw [chars_eq]
  rw [h.path] at hvisible ⊢
  exact ofChars_of_visible h.scheme hvisible

theorem ofChars_chars_file (h : url.Steady (s :: r)) (hk : url.kind = .file) (hdots : ∀ t ∈ s :: r, ¬isDots t) :
    Url.ofChars url.chars = .ok (if url.host? = none then url
      else fileUrl url.scheme (if Path.isDrive s then none else url.host?)
        (s ++ Path.joined r ++ url.tailText)) := by
  have hscheme : schemeKind url.scheme = .file := hk
  rw [ofChars_chars_eq h, readBody, ← readFile_text h hk hdots]
  simp only [hscheme]

/-- A URL is read from its text where no dots are left in its path, and no drive takes the place of a
host. -/
theorem ofChars_chars (h : url.Steady (s :: r)) (hdots : ∀ t ∈ s :: r, ¬isDots t)
    (hdrive : url.kind = .file → url.host?.isSome → ¬Path.isDrive s) : Url.ofChars url.chars = .ok url := by
  cases hk : url.kind with
  | web =>
    have hscheme : schemeKind url.scheme = .web := hk
    rw [ofChars_chars_eq h, readBody]
    simp only [hscheme]
    exact readWeb_text h hk hdots
  | file =>
    rw [ofChars_chars_file h hk hdots]
    split
    · rfl
    · rename_i hhost
      exact congrArg Except.ok (fileUrl_text h hk hdots (hdrive hk (Option.isSome_iff_ne_none.mpr hhost)))
  | other =>
    have hscheme : schemeKind url.scheme = .other := hk
    rw [ofChars_chars_eq h, readBody]
    simp only [hscheme]
    exact readOther_text h hk hdots

/-- A drive that begins the path of a file takes the host away. -/
theorem host?_of_drive (h : url.Steady (s :: r)) (hdots : ∀ t ∈ s :: r, ¬isDots t) (hk : url.kind = .file)
    (hs : Path.isDrive s) (hread : Url.ofChars url.chars = .ok url') : url'.host? = none := by
  rw [ofChars_chars_file h hk hdots, if_pos hs] at hread
  obtain rfl := Except.ok.inj hread
  split
  · assumption
  · rfl

end WholeText

end AnnotationReport.Url
