import AnnotationReport.Proofs.Json.Numerals
import Mathlib.Data.List.Induction
import Mathlib.Data.List.Nodup

/-! # Values that are read

Whatever a document says, the value that is read from it is well formed: its integers have 64 bits, its
objects have each key once, and it nests no deeper than the reader allows.
-/
namespace AnnotationReport.Json

/-- The values that there are to read and write. -/
inductive WellFormed : Json → Prop
  | null : WellFormed null
  | bool (b : Bool) : WellFormed (bool b)
  | integer {n : Int} : Numeral.Fits n → WellFormed (integer n)
  | float (x : Binary64) : WellFormed (float x)
  | string (s : String) : WellFormed (string s)
  | array {items : List Json} : (∀ v ∈ items, WellFormed v) → WellFormed (array items)
  | object {members : List (String × Json)} :
      (members.map Prod.fst).Nodup → (∀ m ∈ members, WellFormed m.2) → WellFormed (object members)

section Nesting

mutual

/-- How many containers lie one within another, the outermost one counted. -/
def nesting : Json → Nat
  | array items => itemsNesting items + 1
  | object members => membersNesting members + 1
  | _ => 0

def itemsNesting : List Json → Nat
  | [] => 0
  | v :: r => max (nesting v) (itemsNesting r)

def membersNesting : List (String × Json) → Nat
  | [] => 0
  | m :: r => max (memberNesting m) (membersNesting r)

def memberNesting : String × Json → Nat
  | (_, v) => nesting v

end

variable {depth : Nat}

theorem itemsNesting_le {items : List Json} :
    itemsNesting items ≤ depth ↔ ∀ v ∈ items, v.nesting ≤ depth := by
  induction items with
  | nil => simp [itemsNesting]
  | cons v r ih => rw [itemsNesting, Nat.max_le, ih, List.forall_mem_cons]

theorem membersNesting_le {members : List (String × Json)} :
    membersNesting members ≤ depth ↔ ∀ m ∈ members, m.2.nesting ≤ depth := by
  induction members with
  | nil => simp [membersNesting]
  | cons m r ih =>
    obtain ⟨k, v⟩ := m
    rw [membersNesting, memberNesting, Nat.max_le, ih, List.forall_mem_cons]

theorem nesting_array_le {items : List Json} :
    (array items).nesting ≤ depth + 1 ↔ ∀ v ∈ items, v.nesting ≤ depth := by
  rw [nesting, Nat.add_le_add_iff_right, itemsNesting_le]

theorem nesting_object_le {members : List (String × Json)} :
    (object members).nesting ≤ depth + 1 ↔ ∀ m ∈ members, m.2.nesting ≤ depth := by
  rw [nesting, Nat.add_le_add_iff_right, membersNesting_le]

end Nesting

section Members

variable {α : Type} {key : String} {value : α} {members : List (String × α)}

theorem map_fst_put (key : String) (value : α) (members : List (String × α)) :
    (put key value members).map Prod.fst =
      if key ∈ members.map Prod.fst then members.map Prod.fst else members.map Prod.fst ++ [key] := by
  induction members with
  | nil => rfl
  | cons m r ih =>
    obtain ⟨k, v⟩ := m
    by_cases h : k = key
    · simp [put, h]
    · simp only [put, h, ↓reduceIte, List.map_cons, ih, List.mem_cons, Ne.symm h, false_or]
      split <;> simp

theorem nodup_put (h : (members.map Prod.fst).Nodup) :
    ((put key value members).map Prod.fst).Nodup := by
  rw [map_fst_put]
  split
  · exact h
  · rename_i hk
    exact List.nodup_append.mpr ⟨h, List.nodup_singleton key, fun k hm l hl => by
      rw [List.mem_singleton.mp hl]
      exact fun he => hk (he ▸ hm)⟩

theorem mem_put {m : String × α} (h : m ∈ put key value members) : m = (key, value) ∨ m ∈ members := by
  induction members with
  | nil => exact .inl (List.mem_singleton.mp h)
  | cons n r ih =>
    simp only [put] at h
    split at h
    · exact (List.mem_cons.mp h).imp_right (List.mem_cons_of_mem _)
    · rcases List.mem_cons.mp h with rfl | h
      · exact .inr List.mem_cons_self
      · exact (ih h).imp_right (List.mem_cons_of_mem _)

/-- A new key takes its place at the end. -/
theorem put_of_notMem (h : key ∉ members.map Prod.fst) :
    put key value members = members ++ [(key, value)] := by
  induction members with
  | nil => rfl
  | cons m r ih =>
    obtain ⟨hm, hr⟩ := not_or.mp (mt List.mem_cons.mpr h)
    rw [put, if_neg (Ne.symm hm), ih hr, List.cons_append]

theorem lastValues_concat (members : List (String × α)) (m : String × α) :
    lastValues (members ++ [m]) = put m.1 m.2 (lastValues members) := by
  rw [lastValues, List.foldl_append]
  rfl

theorem nodup_lastValues (members : List (String × α)) : ((lastValues members).map Prod.fst).Nodup := by
  induction members using List.reverseRecOn with
  | nil => exact List.nodup_nil
  | append_singleton r m ih =>
    rw [lastValues_concat]
    exact nodup_put ih

theorem mem_lastValues {m : String × α} (h : m ∈ lastValues members) : m ∈ members := by
  induction members using List.reverseRecOn with
  | nil => exact h
  | append_singleton r n ih =>
    rw [lastValues_concat] at h
    rcases mem_put h with rfl | h
    · exact List.mem_append_right r List.mem_cons_self
    · exact List.mem_append_left _ (ih h)

/-- Members with different keys are kept as they are. -/
theorem lastValues_of_nodup (h : (members.map Prod.fst).Nodup) : lastValues members = members := by
  induction members using List.reverseRecOn with
  | nil => rfl
  | append_singleton r m ih =>
    rw [List.map_append, List.nodup_append] at h
    obtain ⟨hr, -, hnew⟩ := h
    rw [lastValues_concat, ih hr, put_of_notMem]
    exact fun hm => hnew m.1 hm m.1 List.mem_cons_self rfl

end Members

section Reading

mutual

theorem ofDocument?_wellFormed {depth : Nat} {v : Json} : ∀ {d : Document}, ofDocument? depth d = some v →
    v.WellFormed ∧ v.nesting ≤ depth
  | .null, h => by
    cases h
    exact ⟨.null, Nat.zero_le depth⟩
  | .bool b, h => by
    cases h
    exact ⟨.bool b, Nat.zero_le depth⟩
  | .number n, h => by
    rcases Numeral.value?_eq_some h with ⟨i, rfl, hi⟩ | ⟨x, rfl⟩
    · exact ⟨.integer hi, Nat.zero_le depth⟩
    · exact ⟨.float x, Nat.zero_le depth⟩
  | .string ps, h => by
    obtain ⟨s, -, rfl⟩ := Option.map_eq_some_iff.mp h
    exact ⟨.string s, Nat.zero_le depth⟩
  | .array items, h => by
    -- A container takes one level; the rest is left to what is in it.
    rw [ofDocument?] at h
    split at h
    · cases h
    · obtain ⟨vs, hvs, rfl⟩ := Option.map_eq_some_iff.mp h
      obtain ⟨depth, rfl⟩ := Nat.exists_eq_succ_of_ne_zero ‹depth ≠ 0›
      have hitems := itemsOf?_wellFormed hvs
      exact ⟨.array fun w hw => (hitems w hw).1, nesting_array_le.mpr fun w hw => (hitems w hw).2⟩
  | .object members, h => by
    rw [ofDocument?] at h
    split at h
    · cases h
    · obtain ⟨ms, hms, rfl⟩ := Option.map_eq_some_iff.mp h
      obtain ⟨depth, rfl⟩ := Nat.exists_eq_succ_of_ne_zero ‹depth ≠ 0›
      have hmembers := fun m hm => membersOf?_wellFormed hms m (mem_lastValues hm)
      exact ⟨.object (nodup_lastValues ms) fun m hm => (hmembers m hm).1,
        nesting_object_le.mpr fun m hm => (hmembers m hm).2⟩

theorem itemsOf?_wellFormed {depth : Nat} {vs : List Json} : ∀ {items : List Document},
    itemsOf? depth items = some vs → ∀ v ∈ vs, v.WellFormed ∧ v.nesting ≤ depth
  | [], h => by
    cases h
    exact fun _ hv => by cases hv
  | d :: r, h => by
    obtain ⟨v, hv, h⟩ := Option.bind_eq_some_iff.mp h
    obtain ⟨ws, hws, rfl⟩ := Option.map_eq_some_iff.mp h
    exact List.forall_mem_cons.mpr ⟨ofDocument?_wellFormed hv, itemsOf?_wellFormed hws⟩

theorem membersOf?_wellFormed {depth : Nat} {vs : List (String × Json)} :
    ∀ {members : List (Key × Document)}, membersOf? depth members = some vs →
      ∀ m ∈ vs, m.2.WellFormed ∧ m.2.nesting ≤ depth
  | [], h => by
    cases h
    exact fun _ hm => by cases hm
  | m :: r, h => by
    obtain ⟨n, hn, h⟩ := Option.bind_eq_some_iff.mp h
    obtain ⟨ws, hws, rfl⟩ := Option.map_eq_some_iff.mp h
    exact List.forall_mem_cons.mpr ⟨memberOf?_wellFormed hn, membersOf?_wellFormed hws⟩

theorem memberOf?_wellFormed {depth : Nat} {n : String × Json} : ∀ {m : Key × Document},
    memberOf? depth m = some n → n.2.WellFormed ∧ n.2.nesting ≤ depth
  | (k, d), h => by
    obtain ⟨key, -, h⟩ := Option.bind_eq_some_iff.mp h
    obtain ⟨v, hv, rfl⟩ := Option.map_eq_some_iff.mp h
    exact ofDocument?_wellFormed hv

end

end Reading

end AnnotationReport.Json
