import AnnotationReport.Proofs.Text.Utf8
import AnnotationReport.Proofs.Url.Segments
import Mathlib.Algebra.Ring.Nat

/-! # Adding segments

A segment that is added to a path is written without its breaks and with everything encoded that
could end it. Where no dots come out of that, the path grows by just this segment. Dots that come
out of it change the path in other ways, but what it decodes to never grows by more than the text.
-/
namespace AnnotationReport.Url

section Encoded

def segmentSet (kind : SchemeKind) : EncodeSet :=
  if kind = .other then EncodeSet.segment else EncodeSet.specialSegment

variable (kind : SchemeKind) (raw : List Char)

theorem segmentSet_percent : segmentSet kind '%' = true := by
  cases kind <;> rfl

def isDelimiter (kind : SchemeKind) (c : Char) : Bool := isSlash (kind ≠ .other) c || endsPath c

theorem isDelimiter_encode {c : Char} (hc : c ∈ encode (segmentSet kind) raw) :
    isDelimiter kind c = false := by
  rw [← Bool.not_eq_true]
  intro hd
  simp only [isDelimiter, isSlash, endsPath, Bool.or_eq_true, Bool.and_eq_true, decide_eq_true_eq] at hd
  have hset : segmentSet kind c = true ∧ c ≠ '%' ∧ c ∉ hexDigits := by
    rcases hd with (rfl | ⟨hk, rfl⟩) | rfl | rfl
    · cases kind <;> decide
    · cases kind
      · decide
      · decide
      · exact absurd rfl hk
    · cases kind <;> decide
    · cases kind <;> decide
  rcases mem_encode hc with ⟨-, h⟩ | h | h
  · rw [hset.1] at h
    cases h
  · exact hset.2.1 h
  · exact hset.2.2 h

theorem segmentSet_drive {c : Char} (h : c.isAlpha ∨ c = ':' ∨ c = '|') : segmentSet kind c = false := by
  rcases h with h | rfl | rfl
  · have hall : ∀ n : Fin 128, (Char.ofNat n).isAlpha →
        EncodeSet.segment (Char.ofNat n) = false ∧ EncodeSet.specialSegment (Char.ofNat n) = false := by
      decide
    have hlt := Text.Utf8.ascii_of_isAlphanum (Bool.or_eq_true_iff.mpr (.inl h))
    have hc := hall ⟨c.toNat, hlt⟩ (by simpa using h)
    simp only [Char.ofNat_toNat] at hc
    unfold segmentSet
    split
    · exact hc.1
    · exact hc.2
  · cases kind <;> rfl
  · cases kind <;> rfl

theorem encode_drive {s : Segment} (h : Path.isDrive s) : encode (segmentSet kind) s = s := by
  obtain ⟨c, d, rfl, hc, hd⟩ := isDrive_cases h
  have h1 := segmentSet_drive kind (.inl hc)
  have h2 := segmentSet_drive kind (.inr hd)
  simp [encode, encodeChar, h1, h2]

/-- A break after a drive parts a segment into the drive and the rest. -/
theorem encodeSegment_cases :
    encodeSegment kind raw = ⟨encode (segmentSet kind) (significant raw), []⟩ ∨
      ∃ drive rest, Path.isDrive drive ∧ significant raw = drive ++ rest ∧
        encodeSegment kind raw = ⟨drive, encode (segmentSet kind) rest⟩ :=
  ofText_cases (segmentSet kind) raw

theorem whole_encodeSegment :
    (encodeSegment kind raw).whole = encode (segmentSet kind) (significant raw) := by
  rcases encodeSegment_cases kind raw with h | ⟨drive, rest, hd, hraw, h⟩
  · rw [h, Path.Broken.whole, List.append_nil]
  · have he : encode (segmentSet kind) (drive ++ rest) =
        encode (segmentSet kind) drive ++ encode (segmentSet kind) rest := List.flatMap_append
    rw [h, Path.Broken.whole, hraw, he, encode_drive kind hd]

theorem decode_whole_encodeSegment :
    decode (encodeSegment kind raw).whole = Text.Utf8.encode (significant raw) := by
  rw [whole_encodeSegment, decode_encode (segmentSet_percent kind)]

theorem decode_drive {s : Segment} (h : Path.isDrive s) : decode s = Text.Utf8.encode s := by
  rw [← decode_encode (segmentSet_percent .other), encode_drive .other h]

theorem decode_parts_encodeSegment :
    decode (encodeSegment kind raw).start ++ decode (encodeSegment kind raw).rest =
      Text.Utf8.encode (significant raw) := by
  rcases encodeSegment_cases kind raw with h | ⟨drive, rest, hd, hraw, h⟩
  · rw [h, decode_encode (segmentSet_percent kind)]
    exact List.append_nil _
  · rw [h, decode_encode (segmentSet_percent kind), decode_drive hd, hraw, Text.Utf8.encode_append]

theorem eq_dot_of_mem_singleDots (h : (encodeSegment kind raw).whole ∈ Path.singleDots) :
    significant raw = ['.'] := by
  have hdots : ∀ s ∈ Path.singleDots, decode s = Text.Utf8.encode ['.'] := by decide
  have hd := hdots _ h
  rw [decode_whole_encodeSegment] at hd
  exact Text.Utf8.encode_injective hd

theorem eq_dots_of_mem_doubleDots (h : (encodeSegment kind raw).whole ∈ Path.doubleDots) :
    significant raw = ['.', '.'] := by
  have hdots : ∀ s ∈ Path.doubleDots, decode s = Text.Utf8.encode ['.', '.'] := by decide
  have hd := hdots _ h
  rw [decode_whole_encodeSegment] at hd
  exact Text.Utf8.encode_injective hd

end Encoded

section Growth

theorem significant_of_isDots {kind : SchemeKind} {raw : List Char}
    (h : isDots (encodeSegment kind raw).whole) :
    significant raw = ['.'] ∨ significant raw = ['.', '.'] := by
  rcases h with h | h
  · exact .inr (eq_dots_of_mem_doubleDots kind raw h)
  · exact .inl (eq_dot_of_mem_singleDots kind raw h)

/-- A path of which only the root is left, without its segment. -/
def rooted (segments : List Segment) : List Segment := if segments = [[]] then [] else segments

variable {file : Bool} {done : List Segment} {b : Path.Broken}

theorem contains_eq_false {s : Segment} (hs : ¬isDots s) :
    Path.doubleDots.contains s = false ∧ Path.singleDots.contains s = false := by
  simpa [isDots] using hs

theorem push_eq {s : Segment} (hs : ¬isDots s) :
    Path.push file done s = done ++ [Path.withDrive file done s] := by
  obtain ⟨hd, hd'⟩ := contains_eq_false hs
  simp only [Path.push, hd, hd', Bool.false_eq_true, ↓reduceIte]

theorem pushLast_eq {s : Segment} (hs : ¬isDots s) :
    Path.pushLast file done s = done ++ [Path.withDrive file done s] := by
  obtain ⟨hd, hd'⟩ := contains_eq_false hs
  simp only [Path.pushLast, hd, hd', Bool.false_eq_true, ↓reduceIte]

theorem extend_eq (file : Bool) (segments : List Segment) (b : Path.Broken) :
    Path.extend file segments b =
      if file && b.parts (rooted segments) then [b.start, b.rest]
      else Path.pushLast file (rooted segments) b.whole := by
  cases file <;> rfl

theorem extend_first (hb : b.rest = []) (hdrive : ¬Path.isDrive b.whole) (hdots : ¬isDots b.whole) :
    Path.extend file done b = rooted done ++ [b.whole] := by
  have hparts : b.parts (rooted done) = false := by simp [Path.Broken.parts, hb]
  have hwith : Path.withDrive file (rooted done) b.whole = b.whole := by
    simp [Path.withDrive, hdrive]
  rw [extend_eq, hparts, Bool.and_false, if_neg Bool.false_ne_true, pushLast_eq hdots, hwith]

theorem extend_next (hne : done ≠ []) (hroot : done ≠ [[]]) (hdots : ¬isDots b.whole) :
    Path.extend file done b = done ++ [b.whole] := by
  have hr : rooted done = done := if_neg hroot
  have hempty : done.isEmpty = false := by simpa using hne
  have hparts : b.parts done = false := by simp [Path.Broken.parts, hempty]
  have hwith : Path.withDrive file done b.whole = b.whole := by
    simp [Path.withDrive, hempty]
  rw [extend_eq, hr, hparts, Bool.and_false, if_neg Bool.false_ne_true, pushLast_eq hdots, hwith]

/-- A path grows by the segments that are added, as long as none of them is dots. -/
theorem foldl_extend (file : Bool) {list : List Path.Broken} (hne : done ≠ []) (hroot : done ≠ [[]])
    (hdots : ∀ b ∈ list, ¬isDots b.whole) :
    list.foldl (Path.extend file) done = done ++ list.map Path.Broken.whole := by
  induction list generalizing done with
  | nil => simp
  | cons b r ih =>
    obtain ⟨hb, hr⟩ := List.forall_mem_cons.mp hdots
    have hroot' : done ++ [b.whole] ≠ [[]] := by
      intro h
      have hl := congrArg List.length h
      simp only [List.length_append, List.length_singleton] at hl
      exact hne (List.length_eq_zero_iff.mp (by omega))
    rw [List.foldl_cons, extend_next hne hroot hb, ih (by simp) hroot' hr]
    simp

end Growth

section Weight

/-- How many bytes a path decodes to. No segment that is added makes it grow by more than its text. -/
def weight (segments : List Segment) : Nat := (decode (Path.joined segments)).length

theorem weight_eq (segments : List Segment) :
    weight segments = (segments.map fun s => 1 + (decode s).length).sum := by
  have h := decode_append_joined [] segments
  rw [List.nil_append, decode, List.nil_append] at h
  simp only [weight, h, List.length_flatMap, List.length_cons, Nat.add_comm]

theorem weight_append (first second : List Segment) :
    weight (first ++ second) = weight first + weight second := by
  simp [weight_eq]

theorem weight_singleton (s : Segment) : weight [s] = 1 + (decode s).length := by
  simp [weight_eq]

theorem weight_shorten_le (done : List Segment) : weight (Path.shorten done) ≤ weight done := by
  unfold Path.shorten
  split
  · exact Nat.le_refl _
  · rcases List.eq_nil_or_concat done with rfl | ⟨l, s, rfl⟩
    · exact Nat.le_refl _
    · rw [List.concat_eq_append, List.dropLast_concat, weight_append]
      exact Nat.le_add_right _ _

theorem length_decode_withDrive (file : Bool) (done : List Segment) (s : Segment) :
    (decode (Path.withDrive file done s)).length = (decode s).length := by
  unfold Path.withDrive
  split
  · rename_i h
    simp only [Bool.and_eq_true] at h
    obtain ⟨c, d, rfl, -, hd⟩ := isDrive_cases h.2
    have hlength : (Text.Utf8.encodeChar ':').length = (Text.Utf8.encodeChar '|').length := rfl
    rcases hd with rfl | rfl
    · rfl
    · simp [decode, hlength]
  · rfl

theorem weight_pushLast_le (file : Bool) (done : List Segment) (s : Segment) :
    weight (Path.pushLast file done s) ≤ weight done + 1 + (decode s).length := by
  have hempty : weight [[]] = 1 := rfl
  unfold Path.pushLast
  split
  · have := weight_shorten_le done
    rw [weight_append, hempty]
    omega
  · split
    · rw [weight_append, hempty]
      omega
    · rw [weight_append, weight_singleton, length_decode_withDrive]
      omega

theorem weight_rooted_le (segments : List Segment) : weight (rooted segments) ≤ weight segments := by
  unfold rooted
  split
  · exact Nat.zero_le _
  · exact Nat.le_refl _

theorem extend_ne_nil (file : Bool) (done : List Segment) (b : Path.Broken) :
    Path.extend file done b ≠ [] := by
  rw [extend_eq]
  split
  · simp
  · unfold Path.pushLast
    split
    · simp
    · split <;> simp

/-- What is added decodes to a slash and the text at most, dots and drives included. -/
theorem weight_extend_le (file : Bool) {done : List Segment} (hne : done ≠ []) (kind : SchemeKind)
    (raw : List Char) :
    weight (Path.extend file done (encodeSegment kind raw)) ≤
      weight done + 1 + (Text.Utf8.encode (significant raw)).length := by
  rw [extend_eq]
  split
  · -- Two segments come of one only where the empty segment of the root goes.
    rename_i h
    have hroot : done = [[]] := by
      simp only [Path.Broken.parts, rooted, Bool.and_eq_true] at h
      by_cases hr : done = [[]]
      · exact hr
      · simp [hr, hne] at h
    have hempty : weight [[]] = 1 := rfl
    have hparts := congrArg List.length (decode_parts_encodeSegment kind raw)
    rw [List.length_append] at hparts
    rw [← List.singleton_append, weight_append, weight_singleton, weight_singleton, hroot, hempty]
    omega
  · have hpush := weight_pushLast_le file (rooted done) (encodeSegment kind raw).whole
    have hrooted := weight_rooted_le done
    rw [decode_whole_encodeSegment] at hpush
    omega

theorem weight_foldl_extend_le (file : Bool) {done : List Segment} (hne : done ≠ [])
    (kind : SchemeKind) (raws : List (List Char)) :
    weight ((raws.map (encodeSegment kind)).foldl (Path.extend file) done) ≤
      weight done + (raws.map fun raw => 1 + (Text.Utf8.encode (significant raw)).length).sum := by
  induction raws generalizing done with
  | nil => exact Nat.le_refl _
  | cons raw r ih =>
    have hfirst := weight_extend_le file hne kind raw
    have hrest := ih (extend_ne_nil file done (encodeSegment kind raw))
    simp only [List.map_cons, List.foldl_cons, List.sum_cons]
    omega

end Weight

section Breaks

theorem significant_eq {raw : List Char} (h : ∀ c ∈ raw, isBreak c = false) : significant raw = raw := by
  refine List.filter_eq_self.mpr ?_
  intro c hc
  rw [h c hc]
  rfl

theorem length_encode_significant_le (raw : List Char) :
    (Text.Utf8.encode (significant raw)).length ≤ (Text.Utf8.encode raw).length := by
  induction raw with
  | nil => exact Nat.le_refl _
  | cons c r ih =>
    simp only [Text.Utf8.encode, significant, List.filter_cons, List.flatMap_cons,
      List.length_append] at ih ⊢
    split
    · rw [List.flatMap_cons, List.length_append]
      omega
    · omega

/-- Breaks are bytes that the path of a URL does not keep. -/
theorem length_encode_significant_lt {raw : List Char} {c : Char} (hc : c ∈ raw) (hb : isBreak c) :
    (Text.Utf8.encode (significant raw)).length < (Text.Utf8.encode raw).length := by
  obtain ⟨before, after, rfl⟩ := List.append_of_mem hc
  have hbefore := length_encode_significant_le before
  have hafter := length_encode_significant_le after
  have hsplit : significant (before ++ c :: after) = significant before ++ significant after := by
    simp [significant, hb]
  have hone : Text.Utf8.encode (c :: after) = Text.Utf8.encodeChar c ++ Text.Utf8.encode after := rfl
  have hbyte : 0 < (Text.Utf8.encodeChar c).length := by
    simp only [isBreak, Bool.or_eq_true, decide_eq_true_eq] at hb
    rcases hb with (rfl | rfl) | rfl <;> decide
  simp only [hsplit, Text.Utf8.encode_append, hone, List.length_append]
  omega

theorem sum_significant_le (raws : List (List Char)) :
    (raws.map fun raw => 1 + (Text.Utf8.encode (significant raw)).length).sum ≤
      (raws.map fun raw => 1 + (Text.Utf8.encode raw).length).sum := by
  induction raws with
  | nil => exact Nat.le_refl _
  | cons raw r ih =>
    have h := length_encode_significant_le raw
    simp only [List.map_cons, List.sum_cons]
    omega

theorem sum_significant_lt {raws : List (List Char)} {raw : List Char} (hraw : raw ∈ raws) {c : Char}
    (hc : c ∈ raw) (hb : isBreak c) :
    (raws.map fun raw => 1 + (Text.Utf8.encode (significant raw)).length).sum <
      (raws.map fun raw => 1 + (Text.Utf8.encode raw).length).sum := by
  obtain ⟨before, after, rfl⟩ := List.append_of_mem hraw
  have hbefore := sum_significant_le before
  have hafter := sum_significant_le after
  have hlt := length_encode_significant_lt hc hb
  simp only [List.map_append, List.map_cons, List.sum_append, List.sum_cons]
  omega

end Breaks

section Stem

/-- The text of a path without a slash at its end. One that is then a slash alone is only the root. -/
def stem (path : List Char) : List Char :=
  let cut := if path.getLast? = some '/' then path.dropLast else path
  if cut = ['/'] then [] else cut

theorem joined_eq_slash {segments : List Segment} : Path.joined segments = ['/'] ↔ segments = [[]] := by
  match segments with
  | [] => simp [Path.joined]
  | [s] => simp [Path.joined]
  | _ :: _ :: _ => simp [Path.joined]

/-- The segments under which others are added make up the path without a slash at its end. -/
theorem stem_joined {segments : List Segment} (h : Slashless segments) :
    stem (Path.joined segments) = Path.joined (rooted (Path.trim segments)) := by
  rcases List.eq_nil_or_concat segments with rfl | ⟨l, s, rfl⟩
  · rfl
  · rw [List.concat_eq_append] at h ⊢
    have hs : Path.joined (l ++ [s]) = Path.joined l ++ '/' :: s := by simp [Path.joined]
    -- A path ends in a slash just when its last segment is empty, since no segment has a slash.
    rcases List.eq_nil_or_concat s with rfl | ⟨t, c, rfl⟩
    · have hcut : stem (Path.joined l ++ ['/']) = if l = [[]] then [] else Path.joined l := by
        simp only [stem, List.getLast?_concat, List.dropLast_concat, ↓reduceIte, joined_eq_slash]
      rw [hs, hcut]
      cases l with
      | nil => rfl
      | cons s r =>
        have htrim : Path.trim (s :: r ++ [[]]) = s :: r := by
          rw [Path.trim, if_pos ⟨by simp, List.getLast?_concat⟩, List.dropLast_concat]
        rw [htrim, rooted]
        split <;> rfl
    · rw [List.concat_eq_append] at h hs ⊢
      have hc : c ≠ '/' := by
        rintro rfl
        exact h (t ++ ['/']) (by simp) (by simp)
      have htrim : Path.trim (l ++ [t ++ [c]]) = l ++ [t ++ [c]] := by simp [Path.trim]
      have hroot : l ++ [t ++ [c]] ≠ [[]] := by
        intro he
        have hl := congrArg List.getLast? he
        simp at hl
      have hend : (Path.joined (l ++ [t ++ [c]])).getLast? = some c := by
        rw [hs, ← List.cons_append, ← List.append_assoc]
        exact List.getLast?_concat
      simp only [stem, hend, Option.some.injEq, hc, ↓reduceIte, joined_eq_slash, hroot, htrim, rooted]

end Stem

end AnnotationReport.Url
