import AnnotationReport.Proofs.Api.Rereading
import AnnotationReport.Proofs.Json.Layout
import AnnotationReport.Proofs.Json.Members

/-! # Members that annotations keep

Which members an annotation has, and which one of them decides whether it is reported, said about the text
it is read from.
-/
namespace AnnotationReport.Annotation

open Json (Denotes Document Key Layout TokenText denotes_string_iff plainKey stringOf? valuesOf)

section Letters

/-- An ASCII letter in both cases. -/
def CasePair (upper lower : Char) : Prop :=
  ∃ i < 26, upper = Char.ofNat (0x41 + i) ∧ lower = Char.ofNat (0x61 + i)

/-- Equal but for the case of ASCII letters. -/
def EqualUpToCase (s t : String) : Prop :=
  List.Forall₂ (fun c d => c = d ∨ CasePair c d ∨ CasePair d c) s.toList t.toList

theorem toLower_of_casePair {upper lower : Char} (h : CasePair upper lower) :
    upper.toLower = lower ∧ lower.toLower = lower := by
  obtain ⟨i, hi, rfl, rfl⟩ := h
  have hall : ∀ j : Fin 26, (Char.ofNat (0x41 + j)).toLower = Char.ofNat (0x61 + j) ∧
      (Char.ofNat (0x61 + j)).toLower = Char.ofNat (0x61 + j) := by decide
  exact hall ⟨i, hi⟩

theorem casePair_or_eq (c : Char) : CasePair c c.toLower ∨ c.toLower = c := by
  by_cases h : c.isUpper
  · left
    have hrange : 0x41 ≤ c.toNat ∧ c.toNat < 0x41 + 26 := by
      obtain ⟨hlow, hhigh⟩ : 'A'.val ≤ c.val ∧ c.val ≤ 'Z'.val := of_decide_eq_true h
      exact ⟨UInt32.le_iff_toNat_le.mp hlow, Nat.lt_succ_of_le (UInt32.le_iff_toNat_le.mp hhigh)⟩
    have hc : c = Char.ofNat (0x41 + (c.toNat - 0x41)) := by
      rw [Nat.add_sub_cancel' hrange.1, Char.ofNat_toNat]
    have hpair : CasePair c (Char.ofNat (0x61 + (c.toNat - 0x41))) :=
      ⟨c.toNat - 0x41, by omega, hc, rfl⟩
    rwa [(toLower_of_casePair hpair).1]
  · right
    exact dif_neg fun hrange => h (decide_eq_true hrange)

theorem casePair_unique {c d lower : Char} (hc : CasePair c lower) (hd : CasePair d lower) : c = d := by
  obtain ⟨i, hi, rfl, rfl⟩ := hc
  obtain ⟨j, hj, rfl, h⟩ := hd
  have hall : ∀ i j : Fin 26, Char.ofNat (0x61 + i) = Char.ofNat (0x61 + j) → i = j := by
    decide +kernel
  have hij := Fin.mk.inj (hall ⟨i, hi⟩ ⟨j, hj⟩ h)
  rw [hij]

theorem toLower_eq_toLower {c d : Char} :
    c.toLower = d.toLower ↔ c = d ∨ CasePair c d ∨ CasePair d c := by
  constructor
  · intro h
    rcases casePair_or_eq c, casePair_or_eq d with ⟨hc | hc, hd | hd⟩
    · exact .inl (casePair_unique (h ▸ hc) hd)
    · exact .inr (.inl (hd ▸ h ▸ hc))
    · exact .inr (.inr (hc ▸ h ▸ hd))
    · exact .inl (hc.symm.trans (h.trans hd))
  · rintro (rfl | h | h)
    · rfl
    · exact (toLower_of_casePair h).1.trans (toLower_of_casePair h).2.symm
    · exact (toLower_of_casePair h).2.trans (toLower_of_casePair h).1.symm

theorem lowerCase_eq_lowerCase {s t : String} : lowerCase s = lowerCase t ↔ EqualUpToCase s t := by
  rw [lowerCase, lowerCase, String.ofList_inj, ← List.forall₂_eq_eq_eq, List.forall₂_map_left_iff,
    List.forall₂_map_right_iff, EqualUpToCase]
  simp only [toLower_eq_toLower]

end Letters

section Levels

variable {members : List (Key × Document)} {fields : List (String × Json)} {key s : String}

theorem lookup_string_iff (h : Denotes (.object members) (.object fields)) :
    fields.lookup key = some (.string s) ↔
      ∃ ps, (valuesOf key members).getLast? = some (.string ps) ∧ stringOf? ps = some s := by
  have hlast := h.lookup key
  constructor
  · intro hv
    rw [hv] at hlast
    generalize (valuesOf key members).getLast? = last at hlast
    obtain ⟨hd⟩ := hlast
    obtain ⟨ps, rfl, hs⟩ := denotes_string_iff.mp hd
    exact ⟨ps, rfl, hs⟩
  · rintro ⟨ps, hps, hs⟩
    rw [hps] at hlast
    generalize fields.lookup key = value at hlast
    obtain ⟨hd⟩ := hlast
    cases hd with
    | string ht => rw [Option.some.inj (ht.symm.trans hs)]

theorem isReportable_iff {a : Annotation} : a.isReportable ↔
    ∃ s, a.fields.lookup "annotation_level" = some (.string s) ∧
      (EqualUpToCase s "warning" ∨ EqualUpToCase s "error") := by
  have hlevel : ∀ s, a.level? = some s ↔ a.fields.lookup "annotation_level" = some (.string s) := by
    intro s
    unfold level? levelKey
    split
    · simp [*]
    · rename_i hother
      simpa using hother s
  have hreported : ∀ s, reportedLevels.contains (lowerCase s) ↔
      EqualUpToCase s "warning" ∨ EqualUpToCase s "error" := by
    intro s
    rw [← lowerCase_eq_lowerCase, ← lowerCase_eq_lowerCase]
    simp [reportedLevels, lowerCase]
  rw [isReportable, Option.any_eq_true]
  simp only [hlevel, hreported]

end Levels

/-- An annotation has the members of its text, each key once, at its first place and with its last value, and
so has each object in it. The last level at the top alone decides whether it is reported. -/
theorem read_last_members {members : List (Key × Document)} (l : Layout (.object members))
    {a : Annotation} (h : read? l.body = some a) :
    Denotes (.object members) (.object a.fields) ∧
      (a.isReportable ↔ ∃ ps s, (valuesOf "annotation_level" members).getLast? = some (.string ps) ∧
        stringOf? ps = some s ∧ (EqualUpToCase s "warning" ∨ EqualUpToCase s "error")) := by
  rw [read?, l.read?, Option.bind_some, ofDocument?_eq_some] at h
  have hdenotes := Json.ofDocument?_denotes h
  refine ⟨hdenotes, ?_⟩
  rw [isReportable_iff]
  simp only [lookup_string_iff hdenotes]
  constructor
  · rintro ⟨s, ⟨ps, hps, hs⟩, hlevel⟩
    exact ⟨ps, s, hps, hs, hlevel⟩
  · rintro ⟨ps, s, hps, hs, hlevel⟩
    exact ⟨s, ⟨ps, hps, hs⟩, hlevel⟩

/-- The level comes three times: as a notice, inside another object, and as a warning in odd spelling. -/
def repeatedDocument : Document :=
  .object [
    (plainKey "annotation_level", .string (plainKey "notice")),
    (plainKey "raw", .object [
      (plainKey "annotation_level", .string (plainKey "error")), (plainKey "b", .number ⟨false, [1], [], none⟩),
      (plainKey "annotation_level", .null)]),
    (.unit 0x61 :: plainKey "nnotation_level", .string (plainKey "WARNing"))]

theorem tokenText_level :
    TokenText (.string (.unit 0x61 :: plainKey "nnotation_level")) "\"\\u0061nnotation_level\"".toList := by
  have hunit : Json.PartText (.unit 0x61) ['\\', 'u', '0', '0', '6', '1'] :=
    @Json.PartText.unit '0' '0' '6' '1' 0 0 6 1 rfl rfl rfl rfl
  exact Json.tokenText_escaped (p := (_, _)) hunit (by simp [Json.IsPlain])

def repeatedLayout : Layout repeatedDocument where
  margin := []
  words := [
    .openObject, .ofText "annotation_level" rfl,
    .colon, .ofText "notice" rfl, .comma,
    .ofText "raw" rfl, .colon, .openObject,
    .ofText "annotation_level" rfl, .colon, .ofText "error" rfl,
    .comma, .ofText "b" rfl, .colon,
    .ofDigits [1] rfl rfl, .comma, .ofText "annotation_level" rfl,
    .colon, ⟨_, _, [], .null, Json.isBlank_nil⟩, .closeObject,
    { Json.Word.comma with blank := ['\n', '\t'], isBlank := by simp [Json.IsBlank] },
    ⟨_, _, [' '], tokenText_level, Json.isBlank_space⟩, .colon,
    .ofText "WARNing" rfl, .closeObject]
  isBlank := Json.isBlank_nil
  tokens_eq := by decide +kernel

/-- The warning decides, at the place of the notice. -/
theorem repeated_level_read :
    String.ofList repeatedLayout.text =
        "\x7b\"annotation_level\":\"notice\",\"raw\":\x7b\"annotation_level\":\"error\",\"b\":1," ++
          "\"annotation_level\":null\x7d,\n\t\"\\u0061nnotation_level\" :\"WARNing\"\x7d" ∧
      ∃ a, read? repeatedLayout.body = some a ∧ Denotes repeatedDocument (.object a.fields) ∧
        a.fields.map Prod.fst = ["annotation_level", "raw"] ∧ a.isReportable := by
  refine ⟨by decide +kernel, ?_⟩
  have hsome : (ofDocument? Json.maxDepth repeatedDocument).isSome := by decide +kernel
  obtain ⟨a, ha⟩ := Option.isSome_iff_exists.mp hsome
  have hread : read? repeatedLayout.body = some a := by
    rw [read?, repeatedLayout.read?, Option.bind_some, ha]
  obtain ⟨hdenotes, hreportable⟩ := read_last_members repeatedLayout hread
  refine ⟨a, hread, hdenotes, ?_, hreportable.mpr ?_⟩
  · cases hdenotes with
    | object hkeys _ => exact hkeys.trans (by decide +kernel)
  · have hlevel : stringOf? (.unit 0x61 :: plainKey "nnotation_level") = some "annotation_level" := by
      decide +kernel
    refine ⟨plainKey "WARNing", "WARNing", ?_, Json.stringOf?_plainKey _, .inl ?_⟩
    · simp [valuesOf, Json.stringOf?_plainKey, hlevel]
    · rw [← lowerCase_eq_lowerCase]
      decide +kernel

end AnnotationReport.Annotation
