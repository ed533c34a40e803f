import Mathlib.Data.List.Forall2

/-! # Lists of entries

A list is read entry by entry, or not at all. What stops at an entry leaves it and all after it, and parts
between entries hold none of these. Among
entries whose keys are all different, looking up a key finds the entry that has it, wherever it is.
-/
namespace AnnotationReport.Text

variable {α β : Type}

section Read

variable {f : α → Option β} {l : List α} {l' : List β}

theorem mapM_eq_some : l.mapM f = some l' ↔ List.Forall₂ (fun a b => f a = some b) l l' := by
  induction l generalizing l' with
  | nil => cases l' <;> simp
  | cons a r ih => cases l' <;> simp [ih, Option.bind_eq_some_iff]

theorem forall_of_mapM {p : β → Prop} (h : l.mapM f = some l') (hp : ∀ a b, f a = some b → p b) :
    ∀ b ∈ l', p b := by
  induction mapM_eq_some.mp h with
  | nil => simp
  | cons hab _ ih => exact List.forall_mem_cons.mpr ⟨hp _ _ hab, ih (mapM_eq_some.mpr ‹_›)⟩

end Read

theorem takeWhile_append_stop {p : α → Bool} {body tail : List α} (hbody : ∀ c ∈ body, p c)
    (htail : ∀ c ∈ tail.head?, p c = false) :
    (body ++ tail).takeWhile p = body ∧ (body ++ tail).dropWhile p = tail := by
  rw [List.takeWhile_append_of_pos hbody, List.dropWhile_append_of_pos hbody]
  cases tail with
  | nil => simp
  | cons c t =>
    have hc : p c = false := htail c rfl
    simp [hc]

theorem forall_mem_splitOnP {p : α → Bool} {list s : List α} (hs : s ∈ list.splitOnP p) :
    ∀ c ∈ s, c ∈ list ∧ p c = false := by
  induction list generalizing s with
  | nil =>
    obtain rfl := List.mem_singleton.mp (List.splitOnP_nil ▸ hs)
    simp
  | cons d r ih =>
    have hlater : ∀ t ∈ r.splitOnP p, ∀ c ∈ t, c ∈ d :: r ∧ p c = false := fun t ht c hc =>
      (ih ht c hc).imp_left (List.mem_cons_of_mem d)
    rw [List.splitOnP_cons_eq_if_modifyHead] at hs
    split at hs
    · rcases List.mem_cons.mp hs with rfl | hs
      · simp
      · exact hlater s hs
    · rename_i hd
      obtain ⟨first, rest, hsplit⟩ := List.exists_cons_of_ne_nil (List.splitOnP_ne_nil p r)
      rw [hsplit] at hs hlater
      rcases List.mem_cons.mp hs with rfl | hs
      · intro c hc
        rcases List.mem_cons.mp hc with rfl | hc
        · exact ⟨List.mem_cons_self, Bool.eq_false_iff.mpr hd⟩
        · exact hlater first List.mem_cons_self c hc
      · exact hlater s (List.mem_cons_of_mem first hs)

variable [BEq α] [LawfulBEq α] {entries others : List (α × β)} {key : α} {value : β}

theorem lookup_isSome_iff_mem : (entries.lookup key).isSome ↔ key ∈ entries.map Prod.fst := by
  rw [List.lookup_isSome_iff, List.mem_map]
  constructor
  · rintro ⟨p, hp, hkey⟩
    exact ⟨p, hp, (eq_of_beq hkey).symm⟩
  · rintro ⟨p, hp, rfl⟩
    exact ⟨p, hp, beq_self_eq_true _⟩

theorem lookup_eq_some_iff_mem (h : (entries.map Prod.fst).Nodup) :
    entries.lookup key = some value ↔ (key, value) ∈ entries := by
  rw [List.lookup_eq_some_iff]
  constructor
  · rintro ⟨first, second, rfl, -⟩
    simp
  · intro hm
    obtain ⟨first, second, rfl⟩ := List.append_of_mem hm
    refine ⟨first, second, rfl, fun p hp => ?_⟩
    rw [List.map_append, List.nodup_append] at h
    exact bne_iff_ne.mpr (Ne.symm (h.2.2 p.1 (List.mem_map_of_mem hp) key (by simp)))

theorem lookup_eq_of_perm (h : (entries.map Prod.fst).Nodup) (hperm : others.Perm entries) :
    others.lookup key = entries.lookup key := by
  have hothers : (others.map Prod.fst).Nodup := (hperm.map Prod.fst).nodup_iff.mpr h
  refine Option.ext fun value => ?_
  rw [lookup_eq_some_iff_mem h, lookup_eq_some_iff_mem hothers, hperm.mem_iff]

end AnnotationReport.Text
