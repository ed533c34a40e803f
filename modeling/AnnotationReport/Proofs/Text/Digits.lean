import AnnotationReport.Proofs.Text.Lists
import AnnotationReport.Text.Digits
import Mathlib.Algebra.Ring.Nat
import Mathlib.Data.List.Induction

/-! # Numbers and their digits

A number of so many digits is below the power of the base, and it is read from the digits that it is
written with.
-/
namespace AnnotationReport.Text

variable {b n d : Nat} {ds : List Nat} {text : List Char}

theorem ofDigits_concat (b : Nat) (ds : List Nat) (d : Nat) :
    ofDigits b (ds ++ [d]) = ofDigits b ds * b + d := by
  simp [ofDigits]

theorem ofDigits_lt (h : ∀ d ∈ ds, d < b) : ofDigits b ds < b ^ ds.length := by
  induction ds using List.reverseRecOn with
  | nil => exact Nat.one_pos
  | append_singleton r d ih =>
    obtain ⟨hr, hd⟩ := List.forall_mem_append.mp h
    have hd := hd d List.mem_cons_self
    have hr := Nat.mul_le_mul_right b (Nat.succ_le_of_lt (ih hr))
    rw [ofDigits_concat, List.length_append, List.length_singleton, Nat.pow_succ]
    rw [Nat.succ_mul] at hr
    omega

theorem digitValue?_lt {c : Char} (h : digitValue? b c = some d) : d < b := by
  obtain ⟨-, hd⟩ := Option.filter_eq_some_iff.mp h
  simpa using hd

theorem number?_lt (h : number? b text = some n) : n < b ^ text.length := by
  obtain ⟨ds, hds, rfl⟩ := Option.map_eq_some_iff.mp h
  rw [(mapM_eq_some.mp hds).length_eq]
  exact ofDigits_lt (forall_of_mapM hds fun _ _ => digitValue?_lt)

theorem isSome_of_number? (h : number? b text = some n) : ∀ c ∈ text, (hexValue? c).isSome := by
  obtain ⟨ds, hds, -⟩ := Option.map_eq_some_iff.mp h
  clear h
  induction mapM_eq_some.mp hds with
  | nil => simp
  | cons hab _ ih =>
    obtain ⟨hvalue, -⟩ := Option.filter_eq_some_iff.mp hab
    exact List.forall_mem_cons.mpr ⟨by simp [hvalue], ih (mapM_eq_some.mpr ‹_›)⟩

theorem number?_concat (h : number? b text = some n) (hd : d < b) (hb : b ≤ 16) :
    number? b (text ++ [Nat.digitChar d]) = some (n * b + d) := by
  have hall : ∀ i : Fin 16, hexValue? (Nat.digitChar i) = some i.val := by decide
  have hvalue : digitValue? b (Nat.digitChar d) = some d := by
    rw [digitValue?, hall ⟨d, Nat.lt_of_lt_of_le hd hb⟩, Option.filter_some]
    simp [hd]
  obtain ⟨ds, hds, rfl⟩ := Option.map_eq_some_iff.mp h
  rw [number?, List.mapM_append, hds]
  simp [hvalue, ofDigits_concat]

/-- A number is read from its digits. -/
theorem number?_toDigits (hlow : 1 < b) (hb : b ≤ 16) (n : Nat) :
    number? b (Nat.toDigits b n) = some n := by
  induction n using Nat.strongRecOn with
  | ind n ih =>
    have hempty : number? b [] = some 0 := rfl
    rw [Nat.toDigits_eq_if hlow]
    split
    · rename_i hn
      have hone := number?_concat hempty hn hb
      rwa [List.nil_append, Nat.zero_mul, Nat.zero_add] at hone
    · rename_i hn
      have hdiv : n / b < n := Nat.div_lt_self (by omega) hlow
      rw [number?_concat (ih _ hdiv) (Nat.mod_lt _ (by omega)) hb, Nat.mul_comm, Nat.div_add_mod]

end AnnotationReport.Text
