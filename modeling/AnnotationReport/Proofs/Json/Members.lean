import AnnotationReport.Proofs.Json.WellFormed
import AnnotationReport.Proofs.Text.Lists

/-! # Members of objects

The members of a document's object by the texts of their keys, and what is kept of them in the value that
is read: each key once, at the place of its first member, with the value of its last one.
-/
namespace AnnotationReport.Json

/-- The values of the members with a key, in their order. -/
def valuesOf (key : String) (members : List (Key × Document)) : List Document :=
  (members.filter fun m => stringOf? m.1 = some key).map Prod.snd

/-- The keys of the members, each at its first place. -/
def keysOf (members : List (Key × Document)) : List String :=
  (members.filterMap fun m => stringOf? m.1).eraseDups

/-- A value says what a document says: its members in the order of their first places, the last ones count. -/
inductive Denotes : Document → Json → Prop
  | null : Denotes .null .null
  | bool (b : Bool) : Denotes (.bool b) (.bool b)
  | number {n : Numeral} {v : Json} : n.value? = some v → Denotes (.number n) v
  | string {ps : List StringPart} {s : String} : stringOf? ps = some s → Denotes (.string ps) (.string s)
  | array {items : List Document} {vs : List Json} :
      List.Forall₂ Denotes items vs → Denotes (.array items) (.array vs)
  | object {members : List (Key × Document)} {fields : List (String × Json)} :
      fields.map Prod.fst = keysOf members →
        (∀ key v d, (key, v) ∈ fields → (valuesOf key members).getLast? = some d → Denotes d v) →
          Denotes (.object members) (.object fields)

section LastValues

variable {α : Type} {key : String} {value : α} {members : List (String × α)}

theorem mem_put_of_nodup {m : String × α} (hnodup : (members.map Prod.fst).Nodup)
    (h : m ∈ put key value members) : m = (key, value) ∨ m ∈ members ∧ m.1 ≠ key := by
  induction members with
  | nil => exact .inl (List.mem_singleton.mp h)
  | cons n r ih =>
    obtain ⟨hn, hr⟩ := List.nodup_cons.mp hnodup
    simp only [put] at h
    split at h
    · rename_i hkey
      refine (List.mem_cons.mp h).imp_right fun hm => ⟨List.mem_cons_of_mem _ hm, ?_⟩
      rintro rfl
      exact hn (hkey ▸ List.mem_map_of_mem hm)
    · rename_i hkey
      rcases List.mem_cons.mp h with rfl | h
      · exact .inr ⟨List.mem_cons_self, hkey⟩
      · exact (ih hr h).imp_right (And.imp_left (List.mem_cons_of_mem _))

theorem map_fst_lastValues (members : List (String × α)) :
    (lastValues members).map Prod.fst = (members.map Prod.fst).eraseDups := by
  induction members using List.reverseRecOn with
  | nil => rfl
  | append_singleton r m ih =>
    rw [lastValues_concat, map_fst_put, ih, List.map_append, List.eraseDups_append]
    by_cases h : m.1 ∈ r.map Prod.fst <;> simp [List.removeAll, h, List.eraseDups_cons]

theorem getLast?_lastValues {m : String × α} (h : m ∈ lastValues members) :
    ((members.filter (·.1 = m.1)).map Prod.snd).getLast? = some m.2 := by
  induction members using List.reverseRecOn with
  | nil => cases h
  | append_singleton r n ih =>
    rw [lastValues_concat] at h
    rcases mem_put_of_nodup (nodup_lastValues r) h with rfl | ⟨h, hne⟩
    · simp
    · rw [← ih h]
      simp [Ne.symm hne]

end LastValues

section Keys

variable {key : String} {members : List (Key × Document)} {fields : List (String × Json)}

theorem nodup_keysOf (members : List (Key × Document)) : (keysOf members).Nodup := by
  have h := nodup_lastValues ((members.filterMap fun m => stringOf? m.1).map fun key => (key, ()))
  rwa [map_fst_lastValues, List.map_map, Function.comp_def, List.map_id'] at h

theorem mem_keysOf : key ∈ keysOf members ↔ ∃ d, (valuesOf key members).getLast? = some d := by
  rw [keysOf, List.mem_eraseDups, List.mem_filterMap, ← Option.isSome_iff_exists, List.getLast?_isSome]
  simp [valuesOf]

/-- A key has the value that its last member says, if there is one. -/
theorem Denotes.lookup (h : Denotes (.object members) (.object fields)) (key : String) :
    Option.Rel Denotes (valuesOf key members).getLast? (fields.lookup key) := by
  cases h with
  | object hkeys hvalues =>
    have hnodup : (fields.map Prod.fst).Nodup := hkeys ▸ nodup_keysOf members
    have hmem : key ∈ fields.map Prod.fst ↔ ∃ d, (valuesOf key members).getLast? = some d := by
      rw [hkeys, mem_keysOf]
    cases hd : (valuesOf key members).getLast? with
    | some d =>
      obtain ⟨f, hf, rfl⟩ := List.mem_map.mp (hmem.mpr ⟨d, hd⟩)
      rw [(Text.lookup_eq_some_iff_mem hnodup).mpr hf]
      exact .some (hvalues f.1 f.2 d hf hd)
    | none =>
      cases hv : fields.lookup key with
      | none => exact .none
      | some v =>
        have hf := (Text.lookup_eq_some_iff_mem hnodup).mp hv
        obtain ⟨d, hsome⟩ := hmem.mp (List.mem_map_of_mem hf)
        cases hd.symm.trans hsome

/-- Only strings say texts. -/
theorem denotes_string_iff {d : Document} {s : String} :
    Denotes d (.string s) ↔ ∃ ps, d = .string ps ∧ stringOf? ps = some s := by
  constructor
  · intro h
    cases h with
    | number hv => rcases Numeral.value?_eq_some hv with ⟨i, hi, -⟩ | ⟨x, hx⟩ <;> contradiction
    | string hs => exact ⟨_, rfl, hs⟩
  · rintro ⟨ps, rfl, hs⟩
    exact .string hs

end Keys

section Reading

theorem getLast?_of_forall₂ {α β : Type} {R : α → β → Prop} {l : List α} {l' : List β}
    (h : List.Forall₂ R l l') {a : α} {b : β} (ha : l.getLast? = some a) (hb : l'.getLast? = some b) :
    R a b := by
  rw [← List.head?_reverse] at ha hb
  have hr := List.forall₂_reverse_iff.mpr h
  generalize l.reverse = r at ha hr
  generalize l'.reverse = r' at hb hr
  cases hr with
  | nil => cases hb
  | cons hab _ =>
    cases ha
    cases hb
    exact hab

/-- Keys by keys, values by values: what is known of all members is known of the last one with a key. -/
theorem denotes_object {members : List (Key × Document)} {fields : List (String × Json)}
    (h : List.Forall₂ (fun m f => stringOf? m.1 = some f.1 ∧ Denotes m.2 f.2) members fields) :
    Denotes (.object members) (.object (lastValues fields)) := by
  have hkeys : members.filterMap (fun m => stringOf? m.1) = fields.map Prod.fst := by
    induction h with
    | nil => rfl
    | cons hm _ ih => simp [hm.1, ih]
  have hvalues : ∀ key, List.Forall₂ Denotes (valuesOf key members)
      ((fields.filter (·.1 = key)).map Prod.snd) := by
    intro key
    rw [valuesOf, List.forall₂_map_left_iff, List.forall₂_map_right_iff]
    refine (List.rel_filter ?_ h).imp fun _ _ hm => hm.2
    intro m f hm
    simp [hm.1]
  refine .object ?_ fun key v d hf hd => ?_
  · rw [map_fst_lastValues, keysOf, hkeys]
  · exact getLast?_of_forall₂ (hvalues key) hd (getLast?_lastValues hf)

mutual

/-- Whatever value is read from a document, it says what the document says. -/
theorem ofDocument?_denotes {depth : Nat} {v : Json} : ∀ {d : Document}, ofDocument? depth d = some v →
    Denotes d v
  | .null, h => by
    cases h
    exact .null
  | .bool b, h => by
    cases h
    exact .bool b
  | .number n, h => .number h
  | .string ps, h => by
    obtain ⟨s, hs, rfl⟩ := Option.map_eq_some_iff.mp h
    exact .string hs
  | .array items, h => by
    rw [ofDocument?] at h
    split at h
    · cases h
    · obtain ⟨vs, hvs, rfl⟩ := Option.map_eq_some_iff.mp h
      exact .array (itemsOf?_denotes hvs)
  | .object members, h => by
    rw [ofDocument?] at h
    split at h
    · cases h
    · obtain ⟨fields, hfields, rfl⟩ := Option.map_eq_some_iff.mp h
      exact denotes_object (membersOf?_denotes hfields)

theorem itemsOf?_denotes {depth : Nat} {vs : List Json} : ∀ {items : List Document},
    itemsOf? depth items = some vs → List.Forall₂ Denotes items vs
  | [], h => by
    cases h
    exact .nil
  | d :: r, h => by
    obtain ⟨v, hv, h⟩ := Option.bind_eq_some_iff.mp h
    obtain ⟨ws, hws, rfl⟩ := Option.map_eq_some_iff.mp h
    exact .cons (ofDocument?_denotes hv) (itemsOf?_denotes hws)

theorem membersOf?_denotes {depth : Nat} {fields : List (String × Json)} :
    ∀ {members : List (Key × Document)}, membersOf? depth members = some fields →
      List.Forall₂ (fun m f => stringOf? m.1 = some f.1 ∧ Denotes m.2 f.2) members fields
  | [], h => by
    cases h
    exact .nil
  | m :: r, h => by
    obtain ⟨f, hf, h⟩ := Option.bind_eq_some_iff.mp h
    obtain ⟨fs, hfs, rfl⟩ := Option.map_eq_some_iff.mp h
    exact .cons (memberOf?_denotes hf) (membersOf?_denotes hfs)

theorem memberOf?_denotes {depth : Nat} {f : String × Json} : ∀ {m : Key × Document},
    memberOf? depth m = some f → stringOf? m.1 = some f.1 ∧ Denotes m.2 f.2
  | (k, d), h => by
    obtain ⟨key, hkey, h⟩ := Option.bind_eq_some_iff.mp h
    obtain ⟨v, hv, rfl⟩ := Option.map_eq_some_iff.mp h
    exact ⟨hkey, ofDocument?_denotes hv⟩

end

end Reading

end AnnotationReport.Json
