import AnnotationReport.Proofs.Url.Authorities
import AnnotationReport.Proofs.Url.Extension

/-! # Paths are read back

The segments of a path that was read hold nothing that would end or part them, so the text of the path
is read as the same segments: always, unless a break has left dots in the path of a file or a drive
begins it.
-/
namespace AnnotationReport.Url

section Reading

variable {kind : SchemeKind} {s : Segment} {text : List Char}

/-- A segment as it is written in a path. -/
def Tidy (kind : SchemeKind) (s : Segment) : Prop :=
  ∀ c ∈ s, EncodeSet.path c = false ∧ isSlash (kind ≠ .other) c = false

theorem tidy_encode (h : ∀ c ∈ text, isSlash (kind ≠ .other) c = false) :
    Tidy kind (encode EncodeSet.path text) := by
  have hclean := clean_encode (show EncodeSet.path '%' = false by decide)
    (show hexDigits.all (!EncodeSet.path ·) = true by decide) text
  intro c hc
  refine ⟨hclean c hc, ?_⟩
  rcases mem_encode hc with ⟨hm, -⟩ | rfl | hm
  · exact h c hm
  · simp [isSlash]
  · have hslash : c ≠ '/' := by
      rintro rfl
      exact absurd hm (by decide)
    have hback : c ≠ '\\' := by
      rintro rfl
      exact absurd hm (by decide)
    simp [isSlash, hslash, hback]

theorem tidy_drive (h : Path.isDrive s) : Tidy kind s := by
  obtain ⟨c, d, rfl, hc, hd⟩ := isDrive_cases h
  have hset : ∀ e, e.isAlpha ∨ e = ':' ∨ e = '|' →
      EncodeSet.path e = false ∧ isSlash (kind ≠ .other) e = false := by
    intro e he
    obtain ⟨hsegment, hback⟩ := of_including (segmentSet_drive .web he)
    obtain ⟨hpath, hchars⟩ := of_including hsegment
    simp only [List.mem_cons, List.not_mem_nil, or_false, not_or] at hback hchars
    exact ⟨hpath, by simp [isSlash, hback, hchars]⟩
  intro e he
  simp only [List.mem_cons, List.not_mem_nil, or_false] at he
  rcases he with rfl | rfl
  · exact hset e (.inl hc)
  · exact hset e (.inr hd)

theorem isDrive_colon {c : Char} (h : c.isAlpha) : Path.isDrive [c, ':'] := by
  simp [Path.isDrive, h]

theorem not_isDots_of_isDrive (h : Path.isDrive s) : ¬isDots s := by
  have hall : ∀ t ∈ Path.doubleDots ++ Path.singleDots, t.getLast? ≠ some ':' ∧ t.getLast? ≠ some '|' := by
    decide
  obtain ⟨c, d, rfl, -, hd⟩ := isDrive_cases h
  intro hdots
  obtain ⟨hcolon, hbar⟩ := hall _ (List.mem_append.mpr hdots)
  rcases hd with rfl | rfl
  · exact hcolon rfl
  · exact hbar rfl

theorem not_isDots_nil : ¬isDots [] := by
  unfold isDots
  decide

theorem web_eq_of_ne_file (h : kind ≠ .file) : decide (kind = .web) = decide (kind ≠ .other) := by
  cases kind
  · rfl
  · exact absurd rfl h
  · rfl

theorem tidy_readSegments (hfile : kind ≠ .file) (text : List Char) :
    ∀ s ∈ readSegments kind text, Tidy kind s ∧ ¬isDots s := by
  have hweb := web_eq_of_ne_file hfile
  refine forall_pushAll ⟨by simp [Tidy], not_isDots_nil⟩ (fun c hc =>
    ⟨tidy_drive (isDrive_colon hc), not_isDots_of_isDrive (isDrive_colon hc)⟩) (by simp) ?_
  intro s hs hdots
  obtain ⟨raw, hraw, rfl⟩ := List.mem_map.mp hs
  exact ⟨tidy_encode fun c hc => hweb ▸ (forall_mem_rawSegments hraw c hc).2, hdots⟩

theorem tidy_fileSegments (text : List Char) : ∀ s ∈ fileSegments text, Tidy .file s := by
  refine forall_fileSegments (by simp [Tidy]) (fun c hc => tidy_drive (isDrive_colon hc)) ?_
  intro b hb
  obtain ⟨raw, hraw, rfl⟩ := List.mem_map.mp hb
  have hslash : ∀ c ∈ significant raw, isSlash true c = false := fun c hc =>
    (forall_mem_rawSegments hraw c (List.mem_filter.mp hc).1).2
  refine holds_ofText (tidy_encode hslash) ?_
  intro drive rest hdrive hsplit
  have hrest : Tidy .file (encode EncodeSet.path rest) := by
    refine tidy_encode ?_
    rw [hsplit] at hslash
    exact (List.forall_mem_append.mp hslash).2
  exact ⟨tidy_drive hdrive, hrest, List.forall_mem_append.mpr ⟨tidy_drive hdrive, hrest⟩⟩

theorem ofText_eq_whole (set : EncodeSet) {raw : List Char} (h : ∀ c ∈ raw, isBreak c = false) :
    Path.Broken.ofText set raw = ⟨encode set raw, []⟩ := by
  unfold Path.Broken.ofText
  dsimp only
  rw [significant_eq h, if_neg]
  simp only [Bool.and_eq_true, Option.any_eq_true, not_and, not_exists]
  intro _ c hc
  have hm := List.mem_of_mem_drop (List.mem_of_head? hc)
  simp [h c hm]

/-- Only breaks leave dots in the path of a file. -/
theorem undotted_fileSegments (h : ∀ c ∈ text, isBreak c = false) :
    ∀ s ∈ fileSegments text, ¬isDots s := by
  refine forall_fileSegments not_isDots_nil (fun c hc => not_isDots_of_isDrive (isDrive_colon hc)) ?_
  intro b hb
  obtain ⟨raw, hraw, rfl⟩ := List.mem_map.mp hb
  rw [ofText_eq_whole _ fun c hc => h c (forall_mem_rawSegments hraw c hc).1]
  exact ⟨fun hne => absurd rfl hne, id⟩

theorem fileSegments_starts (text : List Char) :
    fileSegments text = [[]] ∨ ∃ s r, fileSegments text = s :: r ∧ s ≠ [] := by
  unfold fileSegments
  dsimp only
  generalize Path.pushFile [] (brokenSegments text) = list
  split
  · exact .inl rfl
  · rename_i hne
    obtain ⟨s, r, hsr⟩ := List.exists_cons_of_ne_nil fun he => hne (List.isEmpty_iff.mpr he)
    have hhead := List.head?_dropWhile_not List.isEmpty list
    rw [hsr] at hhead
    exact .inr ⟨s, r, hsr, by simpa using hhead⟩

end Reading

section Rereading

variable {kind : SchemeKind} {done list r : List Segment} {s : Segment} {tail : List Char}

theorem pushAll_eq (h : ∀ s ∈ list, ¬isDots s) : Path.pushAll done list = done ++ list := by
  induction list generalizing done with
  | nil => simp [Path.pushAll]
  | cons s r ih =>
    obtain ⟨hs, hr⟩ := List.forall_mem_cons.mp h
    have hwith : Path.withDrive false done s = s := rfl
    cases r with
    | nil => rw [Path.pushAll, pushLast_eq hs, hwith]
    | cons t u =>
      rw [Path.pushAll, ih hr, push_eq hs, hwith, List.append_assoc, List.singleton_append]
      simp

theorem pushFile_eq (h : ∀ s ∈ list, ¬isDots s) (hdrive : done = [] → ¬list.head?.any Path.isDrive) :
    Path.pushFile done (list.map fun s => ⟨s, []⟩) = done ++ list := by
  induction list generalizing done with
  | nil => simp [Path.pushFile]
  | cons s r ih =>
    obtain ⟨hs, hr⟩ := List.forall_mem_cons.mp h
    have hwhole : (⟨s, []⟩ : Path.Broken).whole = s := List.append_nil s
    have hparts : (⟨s, []⟩ : Path.Broken).parts done = false := Bool.and_false _
    have hwith : Path.withDrive true done s = s := by
      rw [Path.withDrive, if_neg]
      simp only [Bool.true_and, Bool.and_eq_true, List.isEmpty_iff, not_and]
      exact fun hd => by simpa using hdrive hd
    cases r with
    | nil => simp [Path.pushFile, hparts, hwhole, pushLast_eq hs, hwith]
    | cons t u =>
      have hrest := @ih (done ++ [s]) hr (by simp)
      rw [List.map_cons] at hrest ⊢
      rw [List.map_cons, Path.pushFile, hparts, if_neg Bool.false_ne_true, hwhole, push_eq hs, hwith, hrest]
      · simp
      · simp

/-- What follows a path: nothing, a query or a fragment. -/
def IsTail (tail : List Char) : Prop := ∀ c ∈ tail.head?, endsPath c

theorem endsPath_joined (h : ∀ t ∈ list, ∀ c ∈ t, endsPath c = false) :
    ∀ c ∈ Path.joined list, endsPath c = false := by
  intro c hc
  obtain ⟨t, ht, hm⟩ := List.mem_flatMap.mp hc
  rcases List.mem_cons.mp hm with rfl | hm
  · decide
  · exact h t ht c hm

/-- Nothing parts the segments of a path but the slashes that stand before each. -/
theorem rawSegments_joined {web : Bool}
    (h : ∀ t ∈ s :: r, ∀ c ∈ t, endsPath c = false ∧ isSlash web c = false) (htail : IsTail tail) :
    rawSegments web (s ++ Path.joined r ++ tail) = s :: r := by
  have hbody : ∀ c ∈ s ++ Path.joined r, (!endsPath c) = true := by
    obtain ⟨hs, hr⟩ := List.forall_mem_cons.mp h
    intro c hc
    rw [Bool.not_eq_true']
    rcases List.mem_append.mp hc with hc | hc
    · exact (hs c hc).1
    · exact endsPath_joined (fun t ht d hd => (hr t ht d hd).1) c hc
  have hstop : ∀ c ∈ tail.head?, (!endsPath c) = false := fun c hc => by simp [htail c hc]
  rw [rawSegments, (Text.takeWhile_append_stop hbody hstop).1]
  clear hbody
  induction r generalizing s with
  | nil =>
    rw [Path.joined, List.flatMap_nil, List.append_nil]
    exact List.splitOnP_eq_singleton fun c hc => (h s List.mem_cons_self c hc).2
  | cons t r ih =>
    obtain ⟨hs, hr⟩ := List.forall_mem_cons.mp h
    have hcons : Path.joined (t :: r) = '/' :: (t ++ Path.joined r) := rfl
    rw [hcons, List.splitOnP_append_cons_of_forall_mem (fun c hc => (hs c hc).2) '/' rfl, ih hr]

theorem map_encode_eq (h : ∀ t ∈ list, Tidy kind t) : list.map (encode EncodeSet.path) = list :=
  (List.map_congr_left fun t ht => encode_eq_self fun c hc => (h t ht c hc).1).trans (List.map_id' list)

theorem parts_of_tidy (h : ∀ t ∈ list, Tidy kind t) :
    ∀ t ∈ list, ∀ c ∈ t, endsPath c = false ∧ isSlash (kind ≠ .other) c = false := fun t ht c hc =>
  ⟨(of_clean_path (h t ht c hc).1).2, (h t ht c hc).2⟩

/-- A path of the web, and one under a scheme that is not known, is read as its segments. -/
theorem readSegments_joined (hfile : kind ≠ .file) (h : ∀ t ∈ s :: r, Tidy kind t ∧ ¬isDots t)
    (htail : IsTail tail) : readSegments kind (s ++ Path.joined r ++ tail) = s :: r := by
  have hweb := web_eq_of_ne_file hfile
  have htidy : ∀ t ∈ s :: r, Tidy kind t := fun t ht => (h t ht).1
  rw [readSegments, hweb, rawSegments_joined (parts_of_tidy htidy) htail, map_encode_eq htidy,
    pushAll_eq fun t ht => (h t ht).2, List.nil_append]

theorem isBreak_of_isVisible {c : Char} (h : isVisible c) : isBreak c = false := by
  rw [← Bool.not_eq_true]
  intro hb
  simp only [isBreak, Bool.or_eq_true, decide_eq_true_eq] at hb
  rcases hb with (rfl | rfl) | rfl <;> exact absurd h (by decide)

/-- In the text of a path no break parts a segment. -/
theorem brokenSegments_joined (h : ∀ t ∈ s :: r, Tidy .file t) (htail : IsTail tail) :
    brokenSegments (s ++ Path.joined r ++ tail) = (s :: r).map fun t => ⟨t, []⟩ := by
  have hraw : rawSegments true (s ++ Path.joined r ++ tail) = s :: r :=
    rawSegments_joined (parts_of_tidy h) htail
  rw [brokenSegments, hraw]
  refine List.map_congr_left fun t ht => ?_
  rw [ofText_eq_whole _ fun c hc => isBreak_of_isVisible (of_clean_path (h t ht c hc).1).1,
    encode_eq_self fun c hc => (h t ht c hc).1]

theorem beginsWithDrive_of_ne_nil (hne : done ≠ []) (h : ∀ s ∈ list, ¬isDots s) :
    Path.beginsWithDrive done (list.map fun t => ⟨t, []⟩) = false := by
  induction list generalizing done with
  | nil => rfl
  | cons s r ih =>
    obtain ⟨hs, hr⟩ := List.forall_mem_cons.mp h
    have hwhole : (⟨s, []⟩ : Path.Broken).whole = s := List.append_nil s
    have hparts : (⟨s, []⟩ : Path.Broken).parts done = false := Bool.and_false _
    have hempty : done.isEmpty = false := List.isEmpty_eq_false_iff.mpr hne
    rw [List.map_cons, Path.beginsWithDrive, hparts, if_neg Bool.false_ne_true, hwhole, hempty, push_eq hs,
      ih (by simp) hr]
    rfl

/-- Only the first segment of a path begins it with a drive. -/
theorem beginsWithDrive_joined (h : ∀ t ∈ s :: r, Tidy .file t ∧ ¬isDots t) (htail : IsTail tail) :
    Path.beginsWithDrive [] (brokenSegments (s ++ Path.joined r ++ tail)) = Path.isDrive s := by
  have hwhole : (⟨s, []⟩ : Path.Broken).whole = s := List.append_nil s
  obtain ⟨hs, hr⟩ := List.forall_mem_cons.mp h
  rw [brokenSegments_joined (fun t ht => (h t ht).1) htail, List.map_cons, Path.beginsWithDrive, hwhole,
    push_eq hs.2, beginsWithDrive_of_ne_nil (by simp) fun t ht => (hr t ht).2]
  simp [Path.Broken.parts]

theorem fileSegments_joined (h : ∀ t ∈ s :: r, Tidy .file t ∧ ¬isDots t) (htail : IsTail tail)
    (hstart : s :: r = [[]] ∨ s ≠ []) (hdrive : ¬Path.isDrive s) :
    fileSegments (s ++ Path.joined r ++ tail) = s :: r := by
  have hpush : Path.pushFile [] (brokenSegments (s ++ Path.joined r ++ tail)) = s :: r := by
    rw [brokenSegments_joined (fun t ht => (h t ht).1) htail,
      pushFile_eq (fun t ht => (h t ht).2) (by simpa using hdrive), List.nil_append]
  rw [fileSegments, hpush]
  rcases hstart with hstart | hstart
  · rw [hstart]
    rfl
  · simp [hstart]

/-- Without a host, the slash before the path makes an empty segment, which counts for nothing. -/
theorem fileSegments_slash_joined (h : ∀ t ∈ list, Tidy .file t ∧ ¬isDots t) (htail : IsTail tail)
    (hstart : list = [[]] ∨ ∃ s r, list = s :: r ∧ s ≠ []) :
    fileSegments (Path.joined list ++ tail) = list := by
  have hpush : Path.pushFile [] (brokenSegments (Path.joined list ++ tail)) = [] :: list := by
    have hall : ∀ t ∈ [] :: list, Tidy .file t ∧ ¬isDots t :=
      List.forall_mem_cons.mpr ⟨⟨by simp [Tidy], not_isDots_nil⟩, h⟩
    have hbroken := brokenSegments_joined (fun t ht => (hall t ht).1) htail
    rw [List.nil_append] at hbroken
    rw [hbroken, pushFile_eq (fun t ht => (hall t ht).2) (by simp [Path.isDrive]), List.nil_append]
  rw [fileSegments, hpush]
  rcases hstart with rfl | ⟨s, r, rfl, hs⟩
  · rfl
  · simp [hs]

end Rereading

end AnnotationReport.Url
