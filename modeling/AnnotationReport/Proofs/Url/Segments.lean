import AnnotationReport.Config.ApiUrl
import AnnotationReport.Proofs.Text.Lists
import AnnotationReport.Proofs.Url.Decoding
import AnnotationReport.Proofs.Url.Outcomes

/-! # Segments hold no slashes

Whatever text a URL is read from, its path is cut at every slash, so none is left within a segment.
-/
namespace AnnotationReport.Url

def Slashless (list : List Segment) : Prop := ∀ s ∈ list, '/' ∉ s

/-- Segments that are never added to a path themselves. -/
def isDots (s : Segment) : Prop := s ∈ Path.doubleDots ∨ s ∈ Path.singleDots

section Adding

variable {q : Segment → Prop} {file : Bool} {done list : List Segment} {s : Segment}

theorem isDrive_cases {s : Segment} (h : Path.isDrive s) :
    ∃ c d, s = [c, d] ∧ c.isAlpha ∧ (d = ':' ∨ d = '|') := by
  unfold Path.isDrive at h
  split at h
  · simp only [Bool.and_eq_true, Bool.or_eq_true, decide_eq_true_eq] at h
    exact ⟨_, _, rfl, h.1, h.2⟩
  · cases h

theorem forall_mem_concat (hd : ∀ t ∈ done, q t) (hs : q s) : ∀ t ∈ done ++ [s], q t :=
  List.forall_mem_append.mpr ⟨hd, List.forall_mem_singleton.mpr hs⟩

theorem forall_shorten (hd : ∀ t ∈ done, q t) : ∀ t ∈ Path.shorten done, q t := by
  unfold Path.shorten
  split
  · exact hd
  · exact fun t ht => hd t (List.dropLast_subset _ ht)

theorem forall_withDrive (hdrive : ∀ c, c.isAlpha → q [c, ':']) (hs : q s) :
    q (Path.withDrive file done s) := by
  unfold Path.withDrive
  split
  · rename_i h
    simp only [Bool.and_eq_true] at h
    obtain ⟨c, d, rfl, hc, -⟩ := isDrive_cases h.2
    exact hdrive c hc
  · exact hs

theorem forall_push (hdrive : ∀ c, c.isAlpha → q [c, ':']) (hd : ∀ t ∈ done, q t)
    (hs : ¬isDots s → q s) : ∀ t ∈ Path.push file done s, q t := by
  unfold Path.push
  split
  · exact forall_shorten hd
  · split
    · exact hd
    · rename_i hdouble hsingle
      refine forall_mem_concat hd (forall_withDrive hdrive (hs ?_))
      simpa [isDots] using And.intro hdouble hsingle

theorem forall_pushLast (hnil : q []) (hdrive : ∀ c, c.isAlpha → q [c, ':']) (hd : ∀ t ∈ done, q t)
    (hs : ¬isDots s → q s) : ∀ t ∈ Path.pushLast file done s, q t := by
  unfold Path.pushLast
  split
  · exact forall_mem_concat (forall_shorten hd) hnil
  · split
    · exact forall_mem_concat hd hnil
    · rename_i hdouble hsingle
      refine forall_mem_concat hd (forall_withDrive hdrive (hs ?_))
      simpa [isDots] using And.intro hdouble hsingle

/-- Of the segments that are added no more is left than those that are not dots, empty ones and drives. -/
theorem forall_pushAll (hnil : q []) (hdrive : ∀ c, c.isAlpha → q [c, ':']) (hd : ∀ t ∈ done, q t)
    (hl : ∀ s ∈ list, ¬isDots s → q s) : ∀ t ∈ Path.pushAll done list, q t := by
  induction list generalizing done with
  | nil => exact hd
  | cons s r ih =>
    obtain ⟨hs, hr⟩ := List.forall_mem_cons.mp hl
    cases r with
    | nil => exact forall_pushLast hnil hdrive hd hs
    | cons _ _ => exact ih (forall_push hdrive hd hs) hr

/-- What holds of a segment as a text writes it, in two parts or whole. -/
def Path.Broken.Holds (q : Segment → Prop) (b : Path.Broken) : Prop :=
  (b.rest ≠ [] → q b.start ∧ q b.rest) ∧ (¬isDots b.whole → q b.whole)

/-- A break after a drive parts a segment into the drive and the rest. -/
theorem ofText_cases (set : EncodeSet) (raw : List Char) :
    Path.Broken.ofText set raw = ⟨encode set (significant raw), []⟩ ∨
      ∃ drive rest, Path.isDrive drive ∧ significant raw = drive ++ rest ∧
        Path.Broken.ofText set raw = ⟨drive, encode set rest⟩ := by
  unfold Path.Broken.ofText
  dsimp only
  generalize raw.length - (raw.dropWhile (· != ':')).length + 1 = n
  split
  · rename_i h
    simp only [Bool.and_eq_true] at h
    obtain ⟨c, d, hdrive, -⟩ := isDrive_cases h.1
    have hraw : significant raw = significant (raw.take n) ++ significant (raw.drop n) := by
      unfold significant
      rw [← List.filter_append, List.take_append_drop]
    refine .inr ⟨_, _, h.1, hraw, ?_⟩
    rw [hraw, hdrive]
    rfl
  · exact .inl rfl

theorem holds_ofText {set : EncodeSet} {raw : List Char} (hwhole : q (encode set (significant raw)))
    (hparts : ∀ drive rest, Path.isDrive drive → significant raw = drive ++ rest →
      q drive ∧ q (encode set rest) ∧ q (drive ++ encode set rest)) :
    (Path.Broken.ofText set raw).Holds q := by
  rcases ofText_cases set raw with h | ⟨drive, rest, hd, hraw, h⟩
  · rw [h]
    refine ⟨fun hne => absurd rfl hne, fun _ => ?_⟩
    rwa [Path.Broken.whole, List.append_nil]
  · obtain ⟨hstart, hrest, hboth⟩ := hparts drive rest hd hraw
    rw [h]
    exact ⟨fun _ => ⟨hstart, hrest⟩, fun _ => hboth⟩

theorem forall_parts {b : Path.Broken} (hb : b.Holds q) (h : b.parts done) :
    ∀ t ∈ [b.start, b.rest], q t := by
  have hrest : b.rest ≠ [] := by
    simp only [Path.Broken.parts, Bool.and_eq_true, Bool.not_eq_true', List.isEmpty_eq_false_iff] at h
    exact h.2
  obtain ⟨hstart, hrest⟩ := hb.1 hrest
  exact List.forall_mem_cons.mpr ⟨hstart, List.forall_mem_singleton.mpr hrest⟩

theorem forall_pushFile {list : List Path.Broken} (hnil : q []) (hdrive : ∀ c, c.isAlpha → q [c, ':'])
    (hd : ∀ t ∈ done, q t) (hl : ∀ b ∈ list, b.Holds q) : ∀ t ∈ Path.pushFile done list, q t := by
  induction list generalizing done with
  | nil => exact hd
  | cons b r ih =>
    obtain ⟨hb, hr⟩ := List.forall_mem_cons.mp hl
    cases r with
    | nil =>
      rw [Path.pushFile]
      split
      · exact forall_parts hb ‹_›
      · exact forall_pushLast hnil hdrive hd hb.2
    | cons b' r' =>
      rw [Path.pushFile]
      · refine ih ?_ hr
        split
        · exact forall_parts hb ‹_›
        · exact forall_push hdrive hd hb.2
      · simp

end Adding

section Slashes

theorem slash_notMem_drive {c : Char} (h : c.isAlpha) : '/' ∉ [c, ':'] := by
  intro hm
  simp only [List.mem_cons, List.not_mem_nil, or_false] at hm
  rcases hm with rfl | hm
  · cases h
  · cases hm

theorem slash_notMem_encode {set : EncodeSet} {text : List Char} (h : '/' ∉ text) :
    '/' ∉ encode set text := by
  intro hm
  rcases mem_encode hm with ⟨hm, -⟩ | hm | hm
  · exact h hm
  · cases hm
  · exact absurd hm (by decide)

theorem slash_notMem_broken {set : EncodeSet} {raw : List Char} (h : '/' ∉ raw) :
    (Path.Broken.ofText set raw).Holds ('/' ∉ ·) := by
  have hs : '/' ∉ significant raw := fun hm => h (List.mem_filter.mp hm).1
  refine holds_ofText (slash_notMem_encode hs) ?_
  intro drive rest _ hraw
  rw [hraw, List.mem_append, not_or] at hs
  have hrest : '/' ∉ encode set rest := slash_notMem_encode hs.2
  exact ⟨hs.1, hrest, fun hm => (List.mem_append.mp hm).elim hs.1 hrest⟩

end Slashes

section Parser

theorem forall_mem_rawSegments {web : Bool} {text s : List Char} (hs : s ∈ rawSegments web text) :
    ∀ c ∈ s, c ∈ text ∧ isSlash web c = false := fun c hc =>
  (Text.forall_mem_splitOnP hs c hc).imp_left fun hm => (List.takeWhile_sublist _).subset hm

theorem slashless_rawSegments (web : Bool) (text : List Char) : Slashless (rawSegments web text) := by
  intro s hs hm
  have h := (forall_mem_rawSegments hs '/' hm).2
  simp [isSlash] at h

theorem slashless_readSegments (kind : SchemeKind) (text : List Char) :
    Slashless (readSegments kind text) := by
  refine forall_pushAll List.not_mem_nil (fun _ => slash_notMem_drive) (by simp) ?_
  intro s hs _
  obtain ⟨raw, hraw, rfl⟩ := List.mem_map.mp hs
  exact slash_notMem_encode (slashless_rawSegments _ _ raw hraw)

theorem forall_fileSegments {q : Segment → Prop} {text : List Char} (hnil : q [])
    (hdrive : ∀ c, c.isAlpha → q [c, ':']) (hl : ∀ b ∈ brokenSegments text, b.Holds q) :
    ∀ s ∈ fileSegments text, q s := by
  have hpush : ∀ s ∈ Path.pushFile [] (brokenSegments text), q s :=
    forall_pushFile hnil hdrive (by simp) hl
  unfold fileSegments
  dsimp only
  split
  · exact List.forall_mem_singleton.mpr hnil
  · exact fun s hs => hpush s ((List.dropWhile_sublist _).subset hs)

theorem slashless_fileSegments (text : List Char) : Slashless (fileSegments text) := by
  refine forall_fileSegments List.not_mem_nil (fun _ => slash_notMem_drive) ?_
  intro b hb
  obtain ⟨raw, hraw, rfl⟩ := List.mem_map.mp hb
  exact slash_notMem_broken (slashless_rawSegments _ _ raw hraw)

def PathSlashless (url : Url) : Prop := ∀ list, url.path = .segments list → Slashless list

theorem pathSlashless_of_segments {url : Url} {list : List Segment} (h : url.path = .segments list)
    (hl : Slashless list) : PathSlashless url := by
  intro list' h'
  obtain rfl := Path.segments.inj (h.symm.trans h')
  exact hl

theorem pathSlashless_ofChars [Idna] {text : List Char} {url : Url} (h : Url.ofChars text = .ok url) :
    PathSlashless url := by
  obtain ⟨-, houtcome⟩ := outcome_ofChars h
  generalize url.scheme = scheme at houtcome
  cases houtcome with
  | hosted _ _ hpath =>
    rcases hpath with rfl | ⟨t, rfl⟩
    · exact pathSlashless_of_segments rfl fun _ h => absurd h List.not_mem_nil
    · exact pathSlashless_of_segments rfl (slashless_readSegments _ t)
  | file _ _ _ => exact pathSlashless_of_segments rfl (slashless_fileSegments _)
  | rooted _ => exact pathSlashless_of_segments rfl (slashless_readSegments _ _)
  | rootless _ =>
    intro list hl
    cases hl

/-- A base URL has segments, and none of them has a slash. -/
theorem exists_segments_of_apiUrl [Idna] {text : String} {base : Url} (h : ApiUrl.ofText text = .ok base) :
    ∃ list, base.path = .segments list ∧ Slashless list := by
  unfold ApiUrl.ofText ApiUrl.ofChars at h
  cases hu : Url.ofChars (ApiUrl.slashed text.toList) with
  | error e => simp [hu, Except.bind] at h
  | ok url =>
    simp only [hu, Except.bind] at h
    split at h
    · rename_i hbase
      obtain rfl := Except.ok.inj h
      unfold Url.isBase at hbase
      split at hbase
      · rename_i list hl
        exact ⟨list, hl, pathSlashless_ofChars hu list hl⟩
      · cases hbase
    · cases h

end Parser

end AnnotationReport.Url
