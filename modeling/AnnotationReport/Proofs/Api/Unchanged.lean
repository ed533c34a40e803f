import AnnotationReport.Proofs.Api.Rereading
import AnnotationReport.Proofs.Json.Meaning

/-! # Annotations are printed unchanged

The text of an annotation means what the text does that it was read from, members in order and strings as
they were, but for numbers that floating point numbers cannot keep.
-/
namespace AnnotationReport.Annotation

open Json (Document Numeral)

/-- What is printed of a text with different keys in each object means the same as the text just if each of
its numerals that is no integer of 64 bits is shown as the ratio that it writes. Short decimals always are. -/
theorem text_unchanged_iff {body : List UInt8} {d : Document} {a : Annotation}
    (hread : Document.read? body = some d) (ha : read? body = some a) (hkeys : d.DistinctKeys) :
    ∃ line m, Document.read? (Text.Utf8.encode a.text) = some line ∧
      line.meaning? Numeral.value = some m ∧ d.meaning? Numeral.printed = some m ∧
      (d.meaning? Numeral.value = some m ↔
        ∀ n ∈ d.numerals, n.integer? = none → n.printed = n.value) ∧
      ∀ n : Numeral, n.Short → n.printed = n.value := by
  have hvalue : Json.ofDocument? Json.maxDepth d = some (.object a.fields) := by
    rw [read?, hread, Option.bind_some] at ha
    exact ofDocument?_eq_some.mp ha
  obtain ⟨line, m, hline, hmeans, hprinted⟩ := Json.exists_meaning hvalue hkeys
  refine ⟨line, m, hline, hmeans, hprinted, ?_, fun n hn => Numeral.printed_of_short hn⟩
  rw [Document.meaning?_eq_iff hprinted]
  constructor
  · intro h n hn _
    exact (h n hn).symm
  · intro h n hn
    by_cases hi : n.integer? = none
    · exact (h n hn hi).symm
    · exact (Numeral.printed_of_integer hi).symm

def parts (s : String) : List Json.StringPart := s.toList.map .char

/-- A text with both ends of the integers, decimals, and characters that are escaped where they need not be. -/
def escapedBody : String :=
  "\x7b\"annotation_level\":\"warning\",\"\\u00e9\":[\x7b\"high\":18446744073709551615,\"low\":" ++
    "-9223372036854775808\x7d, 0.1,-2.50e-3],\"\":\"\\ud83d\\ude00\\/\"\x7d"

def escapedDocument : Document :=
  .object [(parts "annotation_level", .string (parts "warning")),
    ([.unit 0xe9], .array [
      .object [
        (parts "high", .number ⟨false, [1,8,4,4,6,7,4,4,0,7,3,7,0,9,5,5,1,6,1,5], [], none⟩),
        (parts "low", .number ⟨true, [9,2,2,3,3,7,2,0,3,6,8,5,4,7,7,5,8,0,8], [], none⟩)],
      .number ⟨false, [0], [1], none⟩,
      .number ⟨true, [2], [5, 0], some (-3)⟩]),
    ([], .string [.unit 0xd83d, .unit 0xde00, .char '/'])]

theorem escapedDocument_distinctKeys : escapedDocument.DistinctKeys := by
  refine .object (by decide +kernel) ?_
  simp only [List.forall_mem_cons, List.not_mem_nil, false_implies, implies_true, and_true]
  refine ⟨.string _, .array ?_, .string _⟩
  simp only [List.forall_mem_cons, List.not_mem_nil, false_implies, implies_true, and_true]
  refine ⟨.object (by decide +kernel) ?_, .number _, .number _⟩
  simp only [List.forall_mem_cons, List.not_mem_nil, false_implies, implies_true, and_true]
  exact ⟨.number _, .number _⟩

theorem text_unchanged_escaped :
    Document.read? (Text.Utf8.encode escapedBody.toList) = some escapedDocument ∧
      ∃ a line m, read? (Text.Utf8.encode escapedBody.toList) = some a ∧
        Document.read? (Text.Utf8.encode a.text) = some line ∧
        line.meaning? Numeral.value = some m ∧ escapedDocument.meaning? Numeral.value = some m := by
  have hread : Document.read? (Text.Utf8.encode escapedBody.toList) = some escapedDocument :=
    Document.read?_of_tokens? (by decide +kernel)
  have hsome : (ofDocument? Json.maxDepth escapedDocument).isSome := by decide +kernel
  obtain ⟨a, ha⟩ := Option.isSome_iff_exists.mp hsome
  have haread : read? (Text.Utf8.encode escapedBody.toList) = some a := by
    rw [read?, hread, Option.bind_some, ha]
  obtain ⟨line, m, hline, hmeans, -, hiff, hshort⟩ :=
    text_unchanged_iff hread haread escapedDocument_distinctKeys
  refine ⟨hread, a, line, m, haread, hline, hmeans, hiff.mpr ?_⟩
  have hnumerals : escapedDocument.numerals =
      [⟨false, [1,8,4,4,6,7,4,4,0,7,3,7,0,9,5,5,1,6,1,5], [], none⟩,
        ⟨true, [9,2,2,3,3,7,2,0,3,6,8,5,4,7,7,5,8,0,8], [], none⟩, ⟨false, [0], [1], none⟩,
        ⟨true, [2], [5, 0], some (-3)⟩] := rfl
  rw [hnumerals]
  simp only [List.forall_mem_cons, List.not_mem_nil, false_implies, implies_true, and_true]
  refine ⟨fun h => absurd h (by decide), fun h => absurd h (by decide), fun _ => ?_, fun _ => ?_⟩
  · exact hshort _ ⟨by decide, by decide, by decide⟩
  · exact hshort _ ⟨by decide, by decide, by decide⟩

/-- The least integer of more than 64 bits. -/
def largeDocument : Document :=
  .object [(parts "n", .number ⟨false, [1,8,4,4,6,7,4,4,0,7,3,7,0,9,5,5,1,6,1,6], [], none⟩)]

def largeLine : Document :=
  .object [(parts "n", .number ⟨false, [1], [8,4,4,6,7,4,4,0,7,3,7,0,9,5,5,2], some 19⟩)]

/-- Such an integer is read as a floating point number and printed as another integer. -/
theorem large_integer_changed :
    Document.read? (Text.Utf8.encode "\x7b\"n\":18446744073709551616\x7d".toList) = some largeDocument ∧
      largeDocument.DistinctKeys ∧
      ∃ a, read? (Text.Utf8.encode "\x7b\"n\":18446744073709551616\x7d".toList) = some a ∧
        Document.read? (Text.Utf8.encode a.text) = some largeLine ∧
        largeLine.meaning? Numeral.value ≠ largeDocument.meaning? Numeral.value := by
  have hread : Document.read? (Text.Utf8.encode "\x7b\"n\":18446744073709551616\x7d".toList) =
      some largeDocument := Document.read?_of_tokens? (by decide +kernel)
  let x : Binary64 := ⟨false, 1087 * Binary64.block, by decide⟩
  refine ⟨hread, ?_, ⟨[("n", .float x)]⟩, ?_, ?_, ?_⟩
  · refine .object (by decide +kernel) ?_
    simp only [List.forall_mem_cons, List.not_mem_nil, false_implies, implies_true, and_true]
    exact .number _
  · rw [read?, hread, Option.bind_some]
    rfl
  · exact Document.read?_of_tokens? (by decide +kernel)
  · intro h
    let n : Numeral := ⟨false, [1], [8,4,4,6,7,4,4,0,7,3,7,0,9,5,5,2], some 19⟩
    let k : Numeral := ⟨false, [1,8,4,4,6,7,4,4,0,7,3,7,0,9,5,5,1,6,1,6], [], none⟩
    have hmeaning : some (Json.Meaning.object [("n", .number n.value)]) =
        some (Json.Meaning.object [("n", .number k.value)]) := h
    have hnumbers : n.value = k.value := by simpa using hmeaning
    have hn : n.value = 18446744073709552000 := by
      norm_num [n, Numeral.value, Numeral.significand, Numeral.shift, signed, Text.ofDigits]
    have hk : k.value = 18446744073709551616 := by
      norm_num [k, Numeral.value, Numeral.significand, Numeral.shift, signed, Text.ofDigits]
    rw [hn, hk] at hnumbers
    norm_num at hnumbers

end AnnotationReport.Annotation
