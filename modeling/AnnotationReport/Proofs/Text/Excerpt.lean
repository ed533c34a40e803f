import AnnotationReport.Text.Excerpt

/-! # Excerpts of excerpts

An excerpt of an excerpt is the shorter of the two, and a text is its own excerpt when it is short enough
or ends in three dots right after what is kept. Characters are counted and bytes are cut: the cut lies
between two characters of the text, so what is kept is made of whole ones.
-/
namespace AnnotationReport.Text

variable {text : String} {n m : Nat}

theorem toList_dots : "...".toList = ellipsis := rfl

theorem excerpt_of_le (h : text.length ≤ m) : excerpt text m = text :=
  if_pos (String.length_toList ▸ h)

theorem toList_excerpt_of_lt (h : m < text.length) :
    (excerpt text m).toList = text.toList.take m ++ ellipsis := by
  have hlong : ¬text.toList.length ≤ m := by
    rw [String.length_toList]
    omega
  rw [excerpt, if_neg hlong, String.toList_ofList]

theorem length_kept (h : m < text.length) : (text.toList.take m).length = m := by
  rw [List.length_take, String.length_toList, Nat.min_eq_left (Nat.le_of_lt h)]

theorem length_excerpt_of_lt (h : m < text.length) : (excerpt text m).length = m + 3 := by
  have hdots : ellipsis.length = 3 := rfl
  rw [← String.length_toList, toList_excerpt_of_lt h, List.length_append, length_kept h, hdots]

theorem length_excerpt_le (text : String) (m : Nat) : (excerpt text m).length ≤ m + 3 := by
  rcases Nat.lt_or_ge m text.length with h | h
  · exact Nat.le_of_eq (length_excerpt_of_lt h)
  · rw [excerpt_of_le h]
    omega

/-- The first cut shows nowhere: its dots are among the characters that the second one leaves out. -/
theorem excerpt_excerpt (h : n ≤ m) : excerpt (excerpt text m) n = excerpt text n := by
  rcases Nat.lt_or_ge m text.length with hlong | hshort
  · have hagain : n < (excerpt text m).length := by
      rw [length_excerpt_of_lt hlong]
      omega
    have hwithin : n ≤ (text.toList.take m).length := by
      rw [length_kept hlong]
      exact h
    apply String.toList_inj.mp
    rw [toList_excerpt_of_lt hagain, toList_excerpt_of_lt hlong, toList_excerpt_of_lt (by omega),
      List.take_append_of_le_length hwithin, List.take_take, Nat.min_eq_left h]
  · rw [excerpt_of_le hshort]

theorem excerpt_eq_self_iff :
    excerpt text m = text ↔ text.length ≤ m ∨ ∃ kept : String, kept.length = m ∧ text = kept ++ "..." := by
  constructor
  · intro h
    rcases Nat.lt_or_ge m text.length with hlong | hshort
    · refine .inr ⟨String.ofList (text.toList.take m), ?_, ?_⟩
      · rw [String.length_ofList, length_kept hlong]
      · apply String.toList_inj.mp
        rw [String.toList_append, String.toList_ofList, toList_dots, ← toList_excerpt_of_lt hlong, h]
    · exact .inl hshort
  · rintro (h | ⟨kept, rfl, rfl⟩)
    · exact excerpt_of_le h
    · have hlong : kept.length < (kept ++ "...").length := by
        rw [String.length_append]
        exact Nat.lt_add_of_pos_right (by decide)
      apply String.toList_inj.mp
      rw [toList_excerpt_of_lt hlong, String.toList_append, toList_dots, ← String.length_toList,
        List.take_left]

section Cut

theorem nextn_eq_endPos_iff : text.startPos.nextn m = text.endPos ↔ text.length ≤ m := by
  rw [(text.splits_nextn_startPos m).eq_endPos_iff, String.ofList_eq_empty_iff, List.drop_eq_nil_iff,
    String.length_toList]

/-- The excerpt as it is found in the bytes: go on by `m` characters, and cut there unless it is the end. -/
theorem excerpt_eq_cut :
    excerpt text m =
      if text.startPos.nextn m = text.endPos then text
      else (text.sliceTo (text.startPos.nextn m)).copy ++ "..." := by
  split
  · exact excerpt_of_le (nextn_eq_endPos_iff.mp ‹_›)
  · have hlong : m < text.length := Nat.lt_of_not_ge (mt nextn_eq_endPos_iff.mpr ‹_›)
    apply String.toList_inj.mp
    rw [toList_excerpt_of_lt hlong, String.toList_append, (text.splits_nextn_startPos m).copy_sliceTo_eq,
      String.toList_ofList, toList_dots]

theorem bytes_excerpt_of_lt (h : m < text.length) :
    (excerpt text m).toByteArray =
      text.toByteArray.extract 0 (text.startPos.nextn m).offset.byteIdx ++ "...".toByteArray := by
  have hcut : text.startPos.nextn m ≠ text.endPos := mt nextn_eq_endPos_iff.mp (Nat.not_le_of_lt h)
  rw [excerpt_eq_cut, if_neg hcut, String.toByteArray_append, String.copy_toByteArray_sliceTo]

end Cut

/-- The laws of excerpts, for every text and limit. A shorter excerpt does not depend on one taken before,
so excerpts are their own excerpts; the texts that are kept as they are are the short ones and those that
look like an excerpt of just this limit. From any longer text the first characters are kept, three dots
follow, and the bytes kept are those before a position between two characters. -/
theorem excerpt_laws (text : String) (m : Nat) :
    (∀ n ≤ m, excerpt (excerpt text m) n = excerpt text n) ∧
      (excerpt text m = text ↔
        text.length ≤ m ∨ ∃ kept : String, kept.length = m ∧ text = kept ++ "...") ∧
      (m < text.length →
        (excerpt text m).toList = text.toList.take m ++ "...".toList ∧
          (excerpt text m).length = m + 3 ∧
          ∃ cut : String.Pos.Raw, cut.IsValid text ∧
            (excerpt text m).toByteArray = text.toByteArray.extract 0 cut.byteIdx ++ "...".toByteArray) := by
  refine ⟨fun n hn => excerpt_excerpt hn, excerpt_eq_self_iff, fun hlong => ?_⟩
  refine ⟨toList_excerpt_of_lt hlong, length_excerpt_of_lt hlong, ?_⟩
  exact ⟨_, (text.startPos.nextn m).isValid, bytes_excerpt_of_lt hlong⟩

/-- Characters of two and three bytes, cut to three and then to one. -/
theorem excerpt_laws_accented :
    3 < "é€é€".length ∧ excerpt "é€é€" 3 = "é€é..." ∧ excerpt (excerpt "é€é€" 3) 1 = "é..." ∧
      (excerpt "é€é€" 3).length = 6 := by
  have hlong : 3 < "é€é€".length := by decide
  obtain ⟨hagain, -, hcut⟩ := excerpt_laws "é€é€" 3
  obtain ⟨hkept, hlength, -⟩ := hcut hlong
  refine ⟨hlong, String.toList_inj.mp hkept, (hagain 1 (by decide)).trans ?_, hlength⟩
  rfl

end AnnotationReport.Text
