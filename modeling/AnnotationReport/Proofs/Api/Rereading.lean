import AnnotationReport.Api.Annotation
import AnnotationReport.Proofs.Json.RoundTrip

/-! # Annotations are read back

The text of an annotation is read as the annotation, with its members in the same order at every level, and
the list of such texts as the list of the annotations.
-/
namespace AnnotationReport.Annotation

/-- How many containers the annotation nests, itself included. -/
def nesting (a : Annotation) : Nat := (Json.object a.fields).nesting

/-- An annotation as there can be: the integers in it have 64 bits, no object in it has a key twice, and
its floating point numbers are read back from their texts. -/
structure Printable (a : Annotation) : Prop where
  wellFormed : (Json.object a.fields).WellFormed
  floats : ∀ x ∈ (Json.object a.fields).floats, Json.ReadsBack x

section Documents

variable {depth : Nat}

theorem ofDocument?_eq_some {d : Json.Document} {a : Annotation} :
    ofDocument? depth d = some a ↔ Json.ofDocument? depth d = some (.object a.fields) := by
  unfold ofDocument?
  constructor
  · intro h
    split at h
    · obtain rfl := Option.some.inj h
      assumption
    · cases h
  · intro h
    simp [h]

theorem mapM_ofDocument?_eq_some {ds : List Json.Document} {l : List Annotation} :
    ds.mapM (ofDocument? depth) = some l ↔
      Json.itemsOf? depth ds = some (l.map fun a => .object a.fields) := by
  induction ds generalizing l with
  | nil => cases l <;> simp [Json.itemsOf?]
  | cons d r ih =>
    cases l with
    | nil => simp [Json.itemsOf?, Option.bind_eq_some_iff]
    | cons a t => simp [Json.itemsOf?, Option.bind_eq_some_iff, ofDocument?_eq_some, ih]

end Documents

section Bodies

open Text.Utf8 (encode)

variable {a : Annotation} {body : List UInt8}

/-- What is read as an annotation fits in the depth that is allowed. -/
theorem wellFormed_of_read? (h : read? body = some a) :
    (Json.object a.fields).WellFormed ∧ a.nesting ≤ Json.maxDepth := by
  obtain ⟨d, -, ha⟩ := Option.bind_eq_some_iff.mp h
  exact Json.ofDocument?_wellFormed (ofDocument?_eq_some.mp ha)

theorem wellFormed_of_readAnswer? {l : List Annotation} (h : readAnswer? body = some (some l)) :
    ∀ a ∈ l, (Json.object a.fields).WellFormed ∧ a.nesting ≤ Json.maxDepth - 1 := by
  obtain ⟨d, -, hd⟩ := Option.bind_eq_some_iff.mp h
  cases d with
  | array items =>
    obtain ⟨l', hl, hsome⟩ := Option.map_eq_some_iff.mp hd
    obtain rfl := Option.some.inj hsome
    have hitems := Json.itemsOf?_wellFormed (mapM_ofDocument?_eq_some.mp hl)
    exact fun a ha => hitems _ (List.mem_map_of_mem ha)
  | _ => simp [answer?] at hd

theorem Printable.read?_text (h : a.Printable) (hn : a.nesting ≤ Json.maxDepth) :
    read? (encode a.text) = some a := by
  obtain ⟨d, hd⟩ := Json.exists_readsAs h.wellFormed h.floats
  have hread : Json.Document.read? (encode a.text) = some d := hd.read?
  rw [read?, hread, Option.bind_some, ofDocument?_eq_some, hd.means hn]

/-- Whatever text an annotation was read from, its own text is read as the same. -/
theorem read?_text_of_read? (h : read? body = some a)
    (hfloats : ∀ x ∈ (Json.object a.fields).floats, Json.ReadsBack x) : read? (encode a.text) = some a :=
  Printable.read?_text ⟨(wellFormed_of_read? h).1, hfloats⟩ (wellFormed_of_read? h).2

theorem renderItems_eq_intercalate (items : List Json) :
    Json.renderItems items = [','].intercalate (items.map Json.render) := by
  induction items with
  | nil => rfl
  | cons v r ih =>
    cases r with
    | nil => simp [Json.renderItems]
    | cons w r => simp [Json.renderItems, ih, List.intercalate_cons_cons]

theorem readAnswer?_texts {l : List Annotation}
    (h : ∀ a ∈ l, a.Printable ∧ a.nesting ≤ Json.maxDepth - 1) :
    readAnswer? (encode ('[' :: [','].intercalate (l.map text) ++ [']'])) = some (some l) := by
  let items := l.map fun a => Json.object a.fields
  have htext : '[' :: [','].intercalate (l.map text) ++ [']'] = Json.render (.array items) := by
    rw [Json.render, renderItems_eq_intercalate, List.map_map]
    rfl
  have hitems : ∀ v ∈ items, ∃ d, Json.ReadsAs v d := by
    intro v hv
    obtain ⟨a, ha, rfl⟩ := List.mem_map.mp hv
    exact Json.exists_readsAs (h a ha).1.wellFormed (h a ha).1.floats
  obtain ⟨documents, hd⟩ := Json.exists_forall₂ hitems
  have hmeans : Json.itemsOf? (Json.maxDepth - 1) documents = some items := by
    refine Json.itemsOf?_of_readsAs hd ?_
    intro v hv
    obtain ⟨a, ha, rfl⟩ := List.mem_map.mp hv
    exact (h a ha).2
  rw [readAnswer?, htext, (Json.ReadsAs.array hd).read?, Option.bind_some, answer?,
    mapM_ofDocument?_eq_some.mpr hmeans, Option.map_some]

theorem Printable.text_inj {b : Annotation} (ha : a.Printable) (hb : b.Printable)
    (h : a.text = b.text) : a = b := by
  have hobject := Json.render_inj ha.wellFormed hb.wellFormed ha.floats hb.floats h
  rw [Json.object.injEq] at hobject
  exact congrArg Annotation.mk hobject

end Bodies

/-- Printing annotations loses nothing. What is printed is read as what it was, one annotation by itself and
a list of them as the body of an answer; so annotations with the same text are the same, and printing again
what was read gives the same text. The depth that is allowed for one annotation is taken up by one level
where a list is around it. -/
theorem read_printed :
    (∀ a : Annotation, a.Printable → a.nesting ≤ 127 →
      read? (Text.Utf8.encode a.text) = some a ∧
        (read? (Text.Utf8.encode a.text)).map text = some a.text) ∧
    (∀ l : List Annotation, (∀ a ∈ l, a.Printable ∧ a.nesting ≤ 126) →
      readAnswer? (Text.Utf8.encode ('[' :: [','].intercalate (l.map text) ++ [']'])) = some (some l)) ∧
    ∀ a b : Annotation, a.Printable → b.Printable → a.text = b.text → a = b := by
  refine ⟨fun a ha hn => ?_, fun l hl => readAnswer?_texts hl, fun a b ha hb => ha.text_inj hb⟩
  have hread := ha.read?_text hn
  exact ⟨hread, by rw [hread, Option.map_some]⟩

/-- Control characters, quotes, both ends of the integers, a half, and containers in containers. -/
def mixed : Annotation where
  fields := [
    ("annotation_level", .string "Warning"),
    ("\n\x00\"\\", .string "\r\t\x1f/é😀"),
    ("bounds", .array [.integer (-9223372036854775808), .integer 18446744073709551615]),
    ("share", .object [("of", .float Json.half), ("in", .array [])]),
    ("", .array [.null, .bool true, .object []])]

theorem mixed_printable : mixed.Printable where
  wellFormed := by
    refine .object (by decide) ?_
    simp only [mixed, List.forall_mem_cons, List.not_mem_nil, false_implies, implies_true, and_true]
    refine ⟨.string _, .string _, .array ?_, .object (by decide) ?_, .array ?_⟩ <;>
      simp only [List.forall_mem_cons, List.not_mem_nil, false_implies, implies_true, and_true]
    · exact ⟨.integer ⟨by decide, by decide⟩, .integer ⟨by decide, by decide⟩⟩
    · exact ⟨.float _, .array (fun _ h => by cases h)⟩
    · exact ⟨.null, .bool true, .object List.nodup_nil (fun _ h => by cases h)⟩
  floats := by
    intro x hx
    obtain rfl := List.mem_singleton.mp hx
    exact Json.half_readsBack

theorem mixed_read_printed :
    read? (Text.Utf8.encode mixed.text) = some mixed ∧
      readAnswer? (Text.Utf8.encode ('[' :: [','].intercalate ([mixed, ⟨[]⟩, mixed].map text) ++ [']'])) =
        some (some [mixed, ⟨[]⟩, mixed]) := by
  have hempty : (⟨[]⟩ : Annotation).Printable :=
    ⟨.object List.nodup_nil (fun _ h => by cases h), fun _ h => by cases h⟩
  refine ⟨(read_printed.1 mixed mixed_printable (by decide)).1, read_printed.2.1 _ ?_⟩
  intro a ha
  simp only [List.mem_cons, List.not_mem_nil, or_false] at ha
  rcases ha with rfl | rfl | rfl
  · exact ⟨mixed_printable, by decide⟩
  · exact ⟨hempty, by decide⟩
  · exact ⟨mixed_printable, by decide⟩

end AnnotationReport.Annotation
