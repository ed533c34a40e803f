import AnnotationReport.Proofs.Json.Reading
import AnnotationReport.Proofs.Json.Spelling
import AnnotationReport.Proofs.Json.WellFormed
import Mathlib.Data.List.Forall2

/-! # Writing and reading values

The text of a well-formed value is read as a document that means the value again, at every depth that the
value fits in. Of floating point numbers it is assumed that their text reads back as the number.
-/
namespace AnnotationReport.Json

/-- The text of a number is a numeral that means the number. -/
def ReadsBack (x : Binary64) : Prop :=
  ∃ n, Numeral.ofChars? (floatText x) = some n ∧ n.toBinary64? = some x

/-- What reads back does so as a floating point number, never as an integer. -/
theorem ReadsBack.value? {x : Binary64} (h : ReadsBack x) :
    ∃ n, Numeral.ofChars? (floatText x) = some n ∧ n.value? = some (.float x) := by
  obtain ⟨n, hn, hx⟩ := h
  refine ⟨n, hn, ?_⟩
  rw [Numeral.value?, Numeral.integer?_eq_none hn (Numeral.mark_mem_floatText x), hx]
  rfl

/-- One half, an example of a number that reads back. -/
def half : Binary64 := ⟨false, 1022 * Binary64.block, by decide⟩

theorem half_readsBack : ReadsBack half := ⟨⟨false, [0], [5], none⟩, rfl, rfl⟩

section Floats

mutual

/-- The floating point numbers in a value. -/
def floats : Json → List Binary64
  | float x => [x]
  | array items => itemFloats items
  | object members => membersFloats members
  | _ => []

def itemFloats : List Json → List Binary64
  | [] => []
  | v :: r => floats v ++ itemFloats r

def membersFloats : List (String × Json) → List Binary64
  | [] => []
  | m :: r => memberFloats m ++ membersFloats r

def memberFloats : String × Json → List Binary64
  | (_, v) => floats v

end

variable {x : Binary64}

theorem mem_floats_array {items : List Json} {v : Json} (hv : v ∈ items) (hx : x ∈ v.floats) :
    x ∈ (array items).floats := by
  rw [floats]
  induction items with
  | nil => cases hv
  | cons w r ih =>
    rw [itemFloats, List.mem_append]
    rcases List.mem_cons.mp hv with rfl | hr
    · exact .inl hx
    · exact .inr (ih hr)

theorem mem_floats_object {members : List (String × Json)} {m : String × Json} (hm : m ∈ members)
    (hx : x ∈ m.2.floats) : x ∈ (object members).floats := by
  rw [floats]
  induction members with
  | nil => cases hm
  | cons n r ih =>
    obtain ⟨k, v⟩ := n
    rw [membersFloats, List.mem_append]
    rcases List.mem_cons.mp hm with rfl | hr
    · exact .inl hx
    · exact .inr (ih hr)

end Floats

/-- The document that the text of a value is read as; it means the value at every depth that suffices. -/
structure ReadsAs (v : Json) (d : Document) : Prop where
  spells : Spells (render v) d.tokens
  means {depth : Nat} : v.nesting ≤ depth → ofDocument? depth d = some v

structure MemberReadsAs (m : String × Json) (n : Key × Document) : Prop where
  key : stringOf? n.1 = some m.1
  quoted : Spells (quote m.1) [.string n.1]
  value : ReadsAs m.2 n.2

section Containers

theorem exists_forall₂ {α β : Type} {R : α → β → Prop} {l : List α} (h : ∀ a ∈ l, ∃ b, R a b) :
    ∃ l', List.Forall₂ R l l' := by
  induction l with
  | nil => exact ⟨[], .nil⟩
  | cons a r ih =>
    obtain ⟨⟨b, hb⟩, hr⟩ := List.forall_mem_cons.mp h
    obtain ⟨l', hl⟩ := ih hr
    exact ⟨b :: l', .cons hb hl⟩

variable {depth : Nat} {items : List Json} {documents : List Document}
  {members : List (String × Json)} {others : List (Key × Document)}

theorem spells_items (h : List.Forall₂ (fun v d => Spells (render v) (Document.tokens d)) items documents) :
    Spells (renderItems items) (Document.itemTokens documents) := by
  induction h with
  | nil => exact spells_nil
  | cons hv hr ih =>
    cases hr with
    | nil => exact hv
    | cons _ _ => exact hv.append_mark rfl ih

theorem itemsOf?_of_readsAs (h : List.Forall₂ ReadsAs items documents)
    (hdepth : ∀ v ∈ items, v.nesting ≤ depth) : itemsOf? depth documents = some items := by
  induction h with
  | nil => rfl
  | cons hv _ ih =>
    obtain ⟨hfirst, hrest⟩ := List.forall_mem_cons.mp hdepth
    rw [itemsOf?, hv.means hfirst, ih hrest]
    rfl

theorem MemberReadsAs.spells {m : String × Json} {n : Key × Document} (h : MemberReadsAs m n) :
    Spells (renderMember m) (Document.memberToken n) := by
  obtain ⟨k, v⟩ := m
  obtain ⟨key, d⟩ := n
  exact h.quoted.append_mark rfl h.value.spells

theorem spells_members
    (h : List.Forall₂ (fun m n => Spells (renderMember m) (Document.memberToken n)) members others) :
    Spells (renderMembers members) (Document.memberTokens others) := by
  induction h with
  | nil => exact spells_nil
  | cons hm hr ih =>
    cases hr with
    | nil => exact hm
    | cons _ _ => exact hm.append_mark rfl ih

theorem membersOf?_of_readsAs (h : List.Forall₂ MemberReadsAs members others)
    (hdepth : ∀ m ∈ members, m.2.nesting ≤ depth) : membersOf? depth others = some members := by
  induction h with
  | nil => rfl
  | cons hm _ ih =>
    obtain ⟨hfirst, hrest⟩ := List.forall_mem_cons.mp hdepth
    rw [membersOf?, memberOf?, hm.key, hm.value.means hfirst, ih hrest]
    rfl

theorem ReadsAs.array (h : List.Forall₂ ReadsAs items documents) :
    ReadsAs (array items) (.array documents) where
  spells :=
    Spells.after_mark rfl ((spells_items (h.imp fun _ _ hv => hv.spells)).append_mark rfl spells_nil)
  means {depth} hdepth := by
    cases depth with
    | zero => cases hdepth
    | succ depth =>
      have hitems := itemsOf?_of_readsAs h (nesting_array_le.mp hdepth)
      simp [ofDocument?, hitems]

theorem ReadsAs.object (h : List.Forall₂ MemberReadsAs members others)
    (hkeys : (members.map Prod.fst).Nodup) : ReadsAs (object members) (.object others) where
  spells :=
    Spells.after_mark rfl ((spells_members (h.imp fun _ _ hm => hm.spells)).append_mark rfl spells_nil)
  means {depth} hdepth := by
    cases depth with
    | zero => cases hdepth
    | succ depth =>
      have hmembers := membersOf?_of_readsAs h (nesting_object_le.mp hdepth)
      simp [ofDocument?, hmembers, lastValues_of_nodup hkeys]

end Containers

/-- What is written is read as what was meant. The induction is on the value; a container is read from
the documents of what is in it. -/
theorem exists_readsAs {v : Json} (h : v.WellFormed) (hfloats : ∀ x ∈ v.floats, ReadsBack x) :
    ∃ d, ReadsAs v d := by
  induction h with
  | null => exact ⟨.null, spells_null, fun _ => rfl⟩
  | bool b =>
    cases b with
    | true => exact ⟨.bool true, spells_true, fun _ => rfl⟩
    | false => exact ⟨.bool false, spells_false, fun _ => rfl⟩
  | @integer n hn =>
    exact ⟨.number (.ofInt n), spells_numeral (Numeral.ofChars?_integerText n),
      fun _ => Numeral.value?_ofInt hn⟩
  | float x =>
    obtain ⟨n, hn, hx⟩ := (hfloats x List.mem_cons_self).value?
    exact ⟨.number n, spells_numeral hn, fun _ => hx⟩
  | string s =>
    obtain ⟨parts, hparts, hs⟩ := spells_quote s
    exact ⟨.string parts, hs, fun _ => by rw [ofDocument?, hparts, Option.map_some]⟩
  | array _ ih =>
    obtain ⟨documents, hd⟩ := exists_forall₂ fun v hv =>
      ih v hv fun x hx => hfloats x (mem_floats_array hv hx)
    exact ⟨.array documents, .array hd⟩
  | @object members hkeys _ ih =>
    have hmembers : ∀ m ∈ members, ∃ n, MemberReadsAs m n := by
      intro m hm
      obtain ⟨d, hd⟩ := ih m hm fun x hx => hfloats x (mem_floats_object hm hx)
      obtain ⟨key, hkey, hquoted⟩ := spells_quote m.1
      exact ⟨(key, d), hkey, hquoted, hd⟩
    obtain ⟨others, ho⟩ := exists_forall₂ hmembers
    exact ⟨.object others, .object ho hkeys⟩

theorem ReadsAs.read? {v : Json} {d : Document} (h : ReadsAs v d) :
    Document.read? (Text.Utf8.encode (render v)) = some d :=
  Document.read?_of_tokens? h.spells.tokens?

/-- Different values have different texts. -/
theorem render_inj {v w : Json} (hv : v.WellFormed) (hw : w.WellFormed)
    (hvf : ∀ x ∈ v.floats, ReadsBack x) (hwf : ∀ x ∈ w.floats, ReadsBack x)
    (h : render v = render w) : v = w := by
  obtain ⟨d, hd⟩ := exists_readsAs hv hvf
  obtain ⟨e, he⟩ := exists_readsAs hw hwf
  have hde : some d = some e := by rw [← hd.read?, ← he.read?, h]
  obtain rfl := Option.some.inj hde
  have hmeans := hd.means (Nat.le_max_left v.nesting w.nesting)
  rw [he.means (Nat.le_max_right v.nesting w.nesting)] at hmeans
  exact (Option.some.inj hmeans).symm

end AnnotationReport.Json
