import AnnotationReport.Settings.Concurrency
import AnnotationReport.Text.Digits
import Mathlib.Algebra.Ring.Nat
import Mathlib.Tactic.SplitIfs

/-! # Texts of a concurrency

A text asks for a concurrency when it writes a number of 64 bits that is not zero: one digit or more, which
one plus sign may precede. Zeros at the front do not count, however many there are, and a number that grows
too large on the way is too large at the end, since further digits only make it larger.
-/
namespace AnnotationReport.Concurrency

/-- The digits that a text consists of, after a plus sign if it has one, and the number they write. -/
def Writes (text : String) (n : Nat) : Prop :=
  ∃ digits : List Char, (text.toList = digits ∨ text.toList = '+' :: digits) ∧ digits ≠ [] ∧
    (∀ c ∈ digits, c.isDigit = true) ∧
    Text.ofDigits 10 (digits.map fun c => c.toNat - '0'.toNat) = n

theorem Writes.unique {text : String} {n m : Nat} (hn : Writes text n) (hm : Writes text m) : n = m := by
  have hplus : ∀ {digits : List Char}, (∀ c ∈ '+' :: digits, c.isDigit = true) → False := fun h => by
    cases h '+' List.mem_cons_self
  obtain ⟨first, hfirst, -, hfirstDigits, rfl⟩ := hn
  obtain ⟨second, hsecond, -, hsecondDigits, rfl⟩ := hm
  rcases hfirst with hfirst | hfirst <;> rcases hsecond with hsecond | hsecond <;> rw [hfirst] at hsecond
  · rw [hsecond]
  · exact (hplus (hsecond ▸ hfirstDigits)).elim
  · exact (hplus (hsecond ▸ hsecondDigits)).elim
  · rw [(List.cons.inj hsecond).2]

/-- A number continued with digits. -/
def continued (n : Nat) (text : List Char) : Nat :=
  (text.map fun c => c.toNat - '0'.toNat).foldl (fun n d => n * 10 + d) n

theorem le_continued (n : Nat) (text : List Char) : n ≤ continued n text := by
  induction text generalizing n with
  | nil => exact Nat.le_refl n
  | cons c r ih =>
    have hnext : n ≤ n * 10 + (c.toNat - '0'.toNat) := by omega
    exact Nat.le_trans hnext (ih _)

theorem readDigits_eq_ok_iff {n m : Nat} {text : List Char} (hn : n < UInt64.size) :
    readDigits n text = .ok m ↔
      (∀ c ∈ text, c.isDigit = true) ∧ continued n text = m ∧ m < UInt64.size := by
  induction text generalizing n with
  | nil =>
    simp only [readDigits, continued, List.map_nil, List.foldl_nil, Except.ok.injEq]
    constructor
    · rintro rfl
      exact ⟨by simp, rfl, hn⟩
    · exact fun h => h.2.1
  | cons c r ih =>
    have hcontinued : continued n (c :: r) = continued (n * 10 + (c.toNat - '0'.toNat)) r := rfl
    have hgrows := le_continued (n * 10 + (c.toNat - '0'.toNat)) r
    simp only [readDigits, List.forall_mem_cons, hcontinued]
    split_ifs with hdigit hfits
    · rw [ih hfits]
      simp [hdigit]
    · -- The number is too large already, and what follows does not make it smaller.
      refine iff_of_false (by simp) ?_
      rintro ⟨-, rfl, hm⟩
      omega
    · exact iff_of_false (by simp) fun h => hdigit h.1.1

/-- A number is read from its digits, and a plus sign is none of them. -/
theorem readNumber_eq_ok_iff {text : List Char} {n : Nat} : readNumber text = .ok n ↔
    ∃ digits : List Char, (text = digits ∨ text = '+' :: digits) ∧ digits ≠ [] ∧
      readDigits 0 digits = .ok n := by
  have hplus : ∀ r, readDigits 0 ('+' :: r) ≠ .ok n := fun r h => by cases h
  constructor
  · intro h
    unfold readNumber at h
    split at h
    · cases h
    · cases h
    · rename_i r hr
      exact ⟨r, .inr rfl, fun hnil => hr (by rw [hnil]), h⟩
    · rename_i hnil _ _
      exact ⟨text, .inl rfl, hnil, h⟩
  · rintro ⟨digits, rfl | rfl, hne, h⟩
    · unfold readNumber
      split
      · exact absurd rfl hne
      · exact absurd h (hplus _)
      · exact absurd h (hplus _)
      · exact h
    · unfold readNumber
      split
      · rename_i heq
        cases heq
      · rename_i heq
        exact absurd (List.cons.inj heq).2 hne
      · rename_i heq
        exact (List.cons.inj heq).2 ▸ h
      · rename_i hother
        exact absurd rfl (hother digits)

theorem ofNat_eq_ok_iff {n : Nat} {c : Concurrency} : ofNat n = .ok c ↔ c.limit = n := by
  constructor
  · intro h
    unfold ofNat at h
    split_ifs at h
    rw [← Except.ok.inj h]
  · rintro rfl
    exact ofNat_limit c

/-- A text is read as a concurrency exactly when it writes it. -/
theorem ofText_eq_ok_iff {text : String} {c : Concurrency} :
    ofText text = .ok c ↔ Writes text c.limit := by
  have hzero : 0 < UInt64.size := by decide
  have hread : ofText text = .ok c ↔ readNumber text.toList = .ok c.limit := by
    unfold ofText
    cases readNumber text.toList with
    | error e => simp [Except.bind]
    | ok n =>
      simp only [Except.bind, ofNat_eq_ok_iff, Except.ok.injEq]
      exact eq_comm
  rw [hread, readNumber_eq_ok_iff]
  simp only [readDigits_eq_ok_iff hzero, c.lt, and_true]
  rfl

/-- A text writes a number that can be a concurrency: one of 64 bits above zero. -/
def Valid (text : String) (n : Nat) : Prop := Writes text n ∧ 1 ≤ n ∧ n ≤ 2 ^ 64 - 1

theorem exists_ofText_iff {text : String} {n : Nat} :
    (∃ c, ofText text = .ok c ∧ c.limit = n) ↔ Valid text n := by
  have hsize : UInt64.size = 2 ^ 64 := rfl
  constructor
  · rintro ⟨c, hc, rfl⟩
    have hlt := c.lt
    exact ⟨ofText_eq_ok_iff.mp hc, c.pos, by omega⟩
  · rintro ⟨hn, hpos, hle⟩
    exact ⟨⟨n, hpos, by omega⟩, ofText_eq_ok_iff.mpr hn, rfl⟩

theorem exists_error_iff {text : String} :
    (∃ cause, ofText text = .error cause) ↔ ∀ n, ¬Valid text n := by
  simp only [← exists_ofText_iff]
  cases ofText text <;> simp

end AnnotationReport.Concurrency
