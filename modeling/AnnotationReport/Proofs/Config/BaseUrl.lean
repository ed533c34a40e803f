import AnnotationReport.Proofs.Config.Rereading

/-! # Base URLs from plain texts

A text for the web without a query, a fragment, a backslash and breaks is read as a base URL that is what
it is to be, as long as the last segment it names is not dots. In general it takes the parts of the URL
to say so.
-/
namespace AnnotationReport.ApiUrl

open Url (Segment isDots tailText)

section Dots

variable {s : Segment}

theorem encoded_in_dots {before after : List Char} {b : UInt8}
    (h : isDots (before ++ Url.encodeByte b ++ after)) : b.toNat = 46 := by
  have hall : ∀ t ∈ Url.Path.doubleDots ++ Url.Path.singleDots, ∀ i < t.length, t[i]? = some '%' →
      t[i + 1]? = some '2' ∧ (t[i + 2]? = some 'e' ∨ t[i + 2]? = some 'E') := by
    decide
  have hbyte : b.toNat < 256 := b.toNat_lt
  obtain ⟨hhigh, hlow⟩ := hall _ (List.mem_append.mpr h) before.length
    (by simp [Url.encodeByte]) (by simp [Url.encodeByte])
  have htwo : Url.hexDigit (b.toNat / 16) = '2' := by simpa [Url.encodeByte] using hhigh
  have hletter : Url.hexDigit b.toNat = 'e' ∨ Url.hexDigit b.toNat = 'E' := by
    simpa [Url.encodeByte] using hlow
  have hhighValue : some (b.toNat / 16 % 16) = some 2 := by
    rw [← Url.hexValue?_hexDigit, htwo]
    rfl
  have hlowValue : some (b.toNat % 16) = some 14 := by
    rw [← Url.hexValue?_hexDigit]
    rcases hletter with he | he <;> rw [he] <;> rfl
  simp only [Option.some.injEq] at hhighValue hlowValue
  omega

/-- Encoding makes no dots: a dot is never encoded. -/
theorem isDots_of_encode (h : isDots (Url.encode Url.EncodeSet.path s)) : isDots s := by
  by_cases hclean : ∀ c ∈ s, Url.EncodeSet.path c = false
  · rwa [Url.encode_eq_self hclean] at h
  · exfalso
    simp only [not_forall, Bool.not_eq_false] at hclean
    obtain ⟨c, hc, hset⟩ := hclean
    obtain ⟨before, after, rfl⟩ := List.append_of_mem hc
    obtain ⟨b, bytes, hbytes⟩ := List.exists_cons_of_ne_nil (Text.Utf8.encodeChar_ne_nil c)
    have hsplit : Url.encode Url.EncodeSet.path (before ++ c :: after) =
        Url.encode Url.EncodeSet.path before ++ Url.encodeByte b ++
          (bytes.flatMap Url.encodeByte ++ Url.encode Url.EncodeSet.path after) := by
      simp [Url.encode, Url.encodeChar, hset, hbytes]
    rw [hsplit] at h
    have hb := encoded_in_dots h
    have hmem : b ∈ Text.Utf8.encode [c] := by simp [Text.Utf8.encode, hbytes]
    obtain ⟨d, hd, hvalue⟩ := Text.Utf8.exists_toNat_of_mem_encode (by omega) hmem
    obtain rfl := List.mem_singleton.mp hd
    have hdot : d = '.' := Char.toNat_inj.mp (hvalue.trans hb)
    rw [hdot] at hset
    revert hset
    decide

end Dots

section Splitting

variable {p : Char → Bool} {text : List Char}

theorem exists_last_part {c : Char} (hlast : text.getLast? = some c) (hc : p c = false) :
    ∃ init last, text.splitOnP p = init ++ [last] ∧ last ≠ [] := by
  induction text with
  | nil => cases hlast
  | cons d r ih =>
    rw [List.splitOnP_cons_eq_if_modifyHead]
    cases r with
    | nil =>
      obtain rfl : d = c := Option.some.inj hlast
      rw [hc]
      exact ⟨[], [d], by simp [List.splitOnP_nil], by simp⟩
    | cons e t =>
      rw [List.getLast?_cons_cons] at hlast
      obtain ⟨init, last, hsplit, hne⟩ := ih hlast
      rw [hsplit]
      split
      · exact ⟨[] :: init, last, rfl, hne⟩
      · cases init with
        | nil => exact ⟨[], d :: last, rfl, by simp⟩
        | cons i is => exact ⟨(d :: i) :: is, last, rfl, hne⟩

theorem pushAll_concat (done list : List Segment) (s : Segment) :
    Url.Path.pushAll done (list ++ [s]) =
      Url.Path.pushLast false (list.foldl (Url.Path.push false) done) s := by
  induction list generalizing done with
  | nil => rfl
  | cons t r ih =>
    obtain ⟨u, w, huw⟩ :=
      List.exists_cons_of_ne_nil (List.append_ne_nil_of_right_ne_nil r (List.cons_ne_nil s []))
    rw [List.cons_append, List.foldl_cons, ← ih, huw, Url.Path.pushAll]
    simp

end Splitting

section Plain

def lastSegment (text : List Char) : Segment :=
  (Url.rawSegments true (slashed text)).dropLast.getLastD []

/-- A text of which all that follows the host is a path, and the last segment no dots. -/
structure Plain (text : List Char) : Prop where
  marks : ∀ c ∈ text, Url.endsPath c = false ∧ c ≠ '\\' ∧ Url.isBreak c = false
  last : ¬isDots (lastSegment text)

variable {text front more : List Char} {url : Url}

theorem rawSegments_eq (h : ∀ c ∈ text, Url.endsPath c = false) :
    Url.rawSegments true text = text.splitOnP (Url.isSlash true) := by
  have htake : text.takeWhile (!Url.endsPath ·) = text :=
    List.takeWhile_eq_self_iff.mpr fun c hc => by simp [h c hc]
  rw [Url.rawSegments, htake]

/-- A path whose last segment is no dots ends in the slash after it. -/
theorem endsOnce_pushAll {init : List Segment} {last : Segment} (hne : last ≠ []) (hslash : '/' ∉ last)
    (hdots : ¬isDots last) : EndsOnce (Url.Path.joined (Url.Path.pushAll [] (init ++ [last] ++ [[]]))) := by
  have hwith : ∀ done s, Url.Path.withDrive false done s = s := fun _ _ => rfl
  rw [pushAll_concat, List.foldl_append, List.foldl_cons, List.foldl_nil, Url.push_eq hdots,
    Url.pushLast_eq Url.not_isDots_nil, hwith, hwith]
  generalize init.foldl (Url.Path.push false) [] = done
  have hsplit : Url.Path.joined (done ++ [last] ++ [[]]) =
      ((Url.Path.joined done ++ ['/']) ++ last) ++ ['/'] := by
    simp [Url.Path.joined]
  rw [hsplit, endsOnce_concat, getLast?_append_of_ne_nil hne]
  exact fun hlast => hslash (List.mem_of_getLast? hlast)

theorem endsOnce_readSegments
    (hmarks : ∀ c ∈ front ++ '/' :: more, Url.endsPath c = false ∧ c ≠ '\\')
    (hends : EndsOnce (front ++ '/' :: more))
    (hlast : ¬isDots ((Url.rawSegments true (front ++ '/' :: more)).dropLast.getLastD [])) :
    EndsOnce (Url.Path.joined (Url.readSegments .web more)) := by
  rcases List.eq_nil_or_concat more with rfl | ⟨x, c, rfl⟩
  · exact ⟨[], rfl, by simp⟩
  · rw [List.concat_eq_append] at hmarks hends hlast ⊢
    obtain ⟨r, hr, hrlast⟩ := hends
    rw [← List.cons_append, ← List.append_assoc] at hr
    obtain ⟨rfl, hc⟩ := List.append_inj' hr rfl
    obtain rfl : c = '/' := (List.cons.inj hc).1
    have hsplit : front ++ '/' :: x = (front ++ ['/']) ++ x := by simp
    have hx : x ≠ [] := by
      rintro rfl
      exact hrlast List.getLast?_concat
    obtain ⟨d, hd⟩ := Option.isSome_iff_exists.mp (List.getLast?_isSome.mpr hx)
    rw [hsplit, getLast?_append_of_ne_nil hx, hd, ne_eq, Option.some.injEq] at hrlast
    have hseparates : Url.isSlash true d = false := by
      have hback := (hmarks d (by simp [List.mem_of_getLast? hd])).2
      simp [Url.isSlash, hrlast, hback]
    obtain ⟨init, last, hparts, hne⟩ := exists_last_part hd hseparates
    have hslash : '/' ∉ last := by
      intro hm
      have hnone := (Text.forall_mem_splitOnP (hparts ▸ List.mem_append_right init List.mem_cons_self) '/' hm).2
      revert hnone
      decide
    have hmore : Url.rawSegments true (x ++ ['/']) = init ++ [last] ++ [[]] := by
      rw [rawSegments_eq fun c hc => (hmarks c (List.mem_append_right front (List.mem_cons_of_mem '/' hc))).1,
        List.splitOnP_append_cons x [] rfl, hparts, List.splitOnP_nil]
    have hlastly : (Url.rawSegments true (front ++ '/' :: (x ++ ['/']))).dropLast.getLastD [] = last := by
      rw [rawSegments_eq fun c hc => (hmarks c hc).1, List.splitOnP_append_cons front _ rfl,
        List.splitOnP_append_cons x [] rfl, hparts, List.splitOnP_nil]
      rw [← List.append_assoc, ← List.append_assoc, List.dropLast_concat]
      exact List.getLastD_concat
    rw [hlastly] at hlast
    have hweb : decide (Url.SchemeKind.web = .web) = true := rfl
    rw [Url.readSegments, hweb, hmore, List.map_append, List.map_append]
    exact endsOnce_pushAll (Url.encode_ne_nil hne) (Url.slash_notMem_encode hslash)
      fun hdots => hlast (isDots_of_encode hdots)

theorem EndsOnce.of_suffix {suffix : List Char} (h : EndsOnce text) (hs : suffix <:+ text)
    (hne : suffix ≠ []) : EndsOnce suffix := by
  obtain ⟨first, rfl⟩ := hs
  obtain ⟨r, hr, hlast⟩ := h
  rcases List.eq_nil_or_concat suffix with rfl | ⟨x, c, rfl⟩
  · exact absurd rfl hne
  · rw [List.concat_eq_append, ← List.append_assoc] at hr
    obtain ⟨rfl, hc⟩ := List.append_inj' hr rfl
    rw [List.concat_eq_append, hc, endsOnce_concat]
    by_cases hx : x = []
    · simp [hx]
    · rwa [getLast?_append_of_ne_nil hx] at hlast

theorem trimmed_suffix (h : EndsOnce text) : Url.trimmed text <:+ text ∧ EndsOnce (Url.trimmed text) := by
  obtain ⟨u, rfl, -⟩ := id h
  have hmargin : Url.isMargin '/' = false := by decide
  have hstart : (u ++ ['/']).dropWhile Url.isMargin = u.dropWhile Url.isMargin ++ ['/'] := by
    rw [List.dropWhile_append]
    split
    · rename_i hempty
      rw [List.isEmpty_iff.mp hempty]
      simp [hmargin]
    · rfl
  have htrim : Url.trimmed (u ++ ['/']) = u.dropWhile Url.isMargin ++ ['/'] := by
    rw [Url.trimmed, hstart, List.reverse_append, List.reverse_singleton, List.singleton_append,
      List.dropWhile_cons, hmargin, if_neg Bool.false_ne_true, List.reverse_cons, List.reverse_reverse]
  have hsuffix : Url.trimmed (u ++ ['/']) <:+ u ++ ['/'] := by
    rw [htrim]
    exact ⟨u.takeWhile Url.isMargin, by rw [← List.append_assoc, List.takeWhile_append_dropWhile]⟩
  exact ⟨hsuffix, h.of_suffix hsuffix (by simp [htrim])⟩

theorem tailText_assemble {scheme : List Char} {authority : Option Url.Authority} {path : Url.Path}
    (h : ∀ c ∈ text, Url.endsPath c = false) : (Url.assemble scheme authority path text).tailText = [] := by
  have hdrop : text.dropWhile (!Url.endsPath ·) = [] :=
    List.dropWhile_eq_nil_iff.mpr fun c hc => by simp [h c hc]
  rw [Url.assemble, hdrop]
  rfl

theorem dropWhile_authority (hmarks : ∀ c ∈ text, Url.endsPath c = false ∧ c ≠ '\\') (hslash : '/' ∈ text) :
    ∃ more, text.dropWhile (!Url.endsAuthority true ·) = '/' :: more := by
  have hhead := List.head?_dropWhile_not (!Url.endsAuthority true ·) text
  cases hdrop : text.dropWhile (!Url.endsAuthority true ·) with
  | nil =>
    exact absurd (List.dropWhile_eq_nil_iff.mp hdrop '/' hslash) (by decide)
  | cons c more =>
    obtain ⟨hends, hback⟩ := hmarks c ((List.dropWhile_sublist _).subset (hdrop ▸ List.mem_cons_self))
    rw [hdrop] at hhead
    have hc : Url.endsAuthority true c = true := by simpa using hhead
    obtain rfl : c = '/' := by simpa [Url.endsAuthority, Url.isSlash, hends, hback] using hc
    exact ⟨more, rfl⟩

/-- Without marks, what follows the authority is the path and nothing else. -/
theorem path_of_readHosted [Url.Idna] {scheme : List Char} (hk : Url.schemeKind scheme = .web)
    (hmarks : ∀ c ∈ text, Url.endsPath c = false ∧ c ≠ '\\') (hslash : '/' ∈ text)
    (hread : Url.readHosted scheme text = .ok url) :
    ∃ more, '/' :: more <:+ text ∧ url.path = .segments (Url.readSegments .web more) ∧
      url.tailText = [] := by
  obtain ⟨more, hmore⟩ := dropWhile_authority hmarks hslash
  have hsuffix : '/' :: more <:+ text := hmore ▸ List.dropWhile_suffix _
  unfold Url.readHosted at hread
  simp only [hk, decide_true, hmore] at hread
  cases ha : Url.readAuthority scheme ('/' :: more).isEmpty (text.takeWhile (!Url.endsAuthority true ·)) with
  | error e =>
    simp only [ha, bind, Except.bind] at hread
    cases hread
  | ok read =>
    obtain ⟨authority, left⟩ := read
    have hleft : left = [] := by
      rcases (Url.readAuthority_eq_ok (by simp [hk]) ha).2 with hleft | hback
      · exact hleft
      · exact absurd rfl (hmarks _ ((List.takeWhile_sublist _).subset hback)).2
    simp only [ha, hleft, bind, Except.bind, pure, Except.pure, List.nil_append, Except.ok.injEq] at hread
    refine ⟨more, hsuffix, ?_, ?_⟩
    · rw [← hread]
      rfl
    · rw [← hread]
      exact tailText_assemble fun c hc => (hmarks c (hsuffix.subset hc)).1

theorem readHosted_nil [Url.Idna] {scheme : List Char} (hk : Url.schemeKind scheme = .web) :
    Url.readHosted scheme [] = .error .emptyHost := by
  have hread : Url.readAuthority scheme true [] = .error .emptyHost := by
    rw [Url.readAuthority_eq (by simp [hk]) (show _ = (([] : List Char), ([] : List Char)) from rfl) rfl]
    simp [hk]
  simp [Url.readHosted, hread, bind, Except.bind]

/-- What a plain text for the web is read as: the path is read from what follows the slash after the
authority, and nothing follows the path. -/
theorem path_of_plain [Url.Idna]
    (hmarks : ∀ c ∈ text, Url.endsPath c = false ∧ c ≠ '\\' ∧ Url.isBreak c = false)
    (hends : EndsOnce text) (hk : url.kind = .web) (hread : Url.ofChars text = .ok url) :
    ∃ more, '/' :: more <:+ text ∧ url.path = .segments (Url.readSegments .web more) ∧
      url.tailText = [] := by
  obtain ⟨hsuffix, htrimmed⟩ := trimmed_suffix hends
  have hsignificant : Url.significant (Url.trimmed text) = Url.trimmed text :=
    Url.significant_eq fun c hc => (hmarks c (hsuffix.subset hc)).2.2
  unfold Url.ofChars at hread
  dsimp only at hread
  rw [hsignificant] at hread
  split at hread
  · cases hread
  · rename_i scheme rest hsplit
    obtain ⟨-, raw, hraw⟩ := Url.splitScheme?_eq_some hsplit
    have hrest : EndsOnce rest := by
      rw [hraw] at htrimmed
      exact (endsOnce_append_cons (by decide) raw rest).mp htrimmed
    have hrestSuffix : rest <:+ text := by
      refine List.IsSuffix.trans ⟨raw ++ [':'], ?_⟩ hsuffix
      rw [hraw]
      simp
    split at hread
    · rename_i hscheme
      have hplace : rest.dropWhile (Url.isSlash true) <:+ text :=
        (List.dropWhile_suffix _).trans hrestSuffix
      have hne : rest.dropWhile (Url.isSlash true) ≠ [] := by
        intro he
        rw [he, readHosted_nil hscheme] at hread
        cases hread
      obtain ⟨r, hr, -⟩ := hrest.of_suffix (List.dropWhile_suffix _) hne
      obtain ⟨more, hmore, hpath, htail⟩ := path_of_readHosted hscheme
        (fun c hc => (hmarks c (hplace.subset hc)).imp_right And.left) (by simp [hr]) hread
      exact ⟨more, hmore.trans hplace, hpath, htail⟩
    · rename_i hscheme
      have heq := (Url.outcome_readFile hscheme (List.Subset.refl _) hread).scheme_eq
      rw [Url.kind, heq, hscheme] at hk
      cases hk
    · rename_i hscheme
      have houtcome : Url.Outcome text scheme url := Url.outcome_readOther hscheme hread
      have heq := houtcome.scheme_eq
      rw [Url.kind, heq, hscheme] at hk
      cases hk

theorem Plain.regular [Url.Idna] {text : String} (hplain : Plain text.toList)
    (h : ofText text = .ok url) (hk : url.kind = .web) : Regular url := by
  obtain ⟨hread, -⟩ := ofText_eq_ok.mp h
  obtain ⟨list, hsteady⟩ := exists_steady h
  have hmarks : ∀ c ∈ slashed text.toList, Url.endsPath c = false ∧ c ≠ '\\' ∧ Url.isBreak c = false := by
    intro c hc
    rcases mem_slashed hc with hc | rfl
    · exact hplain.marks c hc
    · decide
  have hends := slashed_endsOnce text.toList
  obtain ⟨more, ⟨front, hfront⟩, hpath, htail⟩ := path_of_plain hmarks hends hk hread
  have hlast := hplain.last
  unfold lastSegment at hlast
  rw [← hfront] at hmarks hends hlast
  have hpathEnds : EndsOnce url.path.text := by
    rw [hpath]
    exact endsOnce_readSegments (fun c hc => (hmarks c hc).imp_right And.left) hends hlast
  refine (regular_iff h).mpr ⟨hpathEnds, fun hfile => absurd (hk.symm.trans hfile) (by decide), .inl ?_⟩
  rcases endsOnce_chars hsteady htail hpathEnds with hchars | ⟨-, a, ha, hempty⟩
  · exact hchars
  · exact absurd hempty ((hsteady.authority a ha).text_ne_nil hk)

/-- A base URL is what it is to be just when its path ends in one slash, the text of a file keeps its path
and host, and the slash at the end of the text is there already. It is for every plain text for the web. -/
theorem regular_base [Url.Idna] {text : String} (h : ofText text = .ok url) :
    (Regular url ↔
      EndsOnce url.path.text ∧ FileKept url ∧ (EndsOnce url.chars ∨ url.text = "file:///")) ∧
      (url.kind = .web → Plain text.toList → Regular url) :=
  ⟨regular_iff h, fun hk hplain => hplain.regular h hk⟩

def userBase : Url :=
  ⟨"http".toList, some ⟨⟨"me".toList, none⟩, some (.name "api.test".toList), none⟩, false,
    .segments ["api".toList, "v3".toList, []], none, none⟩

theorem userBase_regular : ofText "http://me@api.test:80/api/./v3//" = .ok userBase ∧ Regular userBase := by
  have hbase : ofText "http://me@api.test:80/api/./v3//" = .ok userBase := rfl
  have hplain : Plain "http://me@api.test:80/api/./v3//".toList := by
    refine ⟨by simp [Url.endsPath, Url.isBreak], ?_⟩
    unfold isDots
    decide
  exact ⟨hbase, (regular_base hbase).2 (by decide) hplain⟩

def doubledBase : Url :=
  ⟨"http".toList, some ⟨.nobody, some (.name "api.test".toList), none⟩, false,
    .segments ["v3".toList, [], []], none, none⟩

/-- Under the schemes of the web a backslash at the end becomes a slash beside the one that is put there: the
path ends in two slashes, its text is read as another URL, and requests have an empty segment in them. -/
theorem doubledBase_not_regular :
    ofText "http://api.test/v3\\" = .ok doubledBase ∧ ¬EndsOnce doubledBase.path.text ∧
      ofText doubledBase.text ≠ .ok doubledBase ∧
      ∀ headers, ∃ url, (⟨doubledBase, headers⟩ : Client).urlOf (Routes.runJobs "octo" "hello" "42") = .ok url ∧
        url.path.text = "/v3//repos/octo/hello/actions/runs/42/jobs".toList := by
  have hends : ¬EndsOnce doubledBase.path.text := by
    rw [← slashed_eq_self_iff]
    decide
  obtain ⟨url, hurl, hpath⟩ : ∃ url,
      doubledBase.extend? ((Routes.runJobs "octo" "hello" "42").map String.toList) = some url ∧
        url.path.text = "/v3//repos/octo/hello/actions/runs/42/jobs".toList := by
    refine ⟨{ doubledBase with path := .segments (["v3", "", "repos", "octo", "hello", "actions", "runs",
      "42", "jobs"].map String.toList) }, ?_, ?_⟩
    · decide +kernel
    · decide
  have hrefused : (Routes.runJobs "octo" "hello" "42").find? Client.isRefused = none := by decide
  refine ⟨rfl, hends, by decide, fun headers => ⟨url, ?_, hpath⟩⟩
  simp only [Client.urlOf, hrefused, hurl]

end Plain

end AnnotationReport.ApiUrl
