import AnnotationReport.Json.Printer
import Mathlib.Data.List.TakeWhile

/-! # Numerals

A numeral is made of the characters of numerals and begins with a digit or a minus sign, so that what
follows it can end it. Integers of 64 bits are written as numerals that mean them. Floating point numbers
are written with a point or an exponent, and no such numeral means an integer.
-/
namespace AnnotationReport.Json.Numeral

section Characters

/-- A character of numerals; the lexer takes them all into the numeral that it is in. -/
abbrev AllNumeric (text : List Char) : Prop := ∀ c ∈ text, Lexer.isNumeric c = true

theorem isNumeric_of_isDigit {c : Char} (h : c.isDigit) : Lexer.isNumeric c = true := by
  simp [Lexer.isNumeric, h]

/-- Digits at the front may be dropped. -/
theorem allNumeric_of_dropWhile {text : List Char} (h : AllNumeric (text.dropWhile Char.isDigit)) :
    AllNumeric text := by
  intro c hc
  rw [← List.takeWhile_append_dropWhile (p := Char.isDigit) (l := text)] at hc
  rcases List.mem_append.mp hc with hc | hc
  · have hall := List.all_takeWhile (p := Char.isDigit) (l := text)
    exact isNumeric_of_isDigit (List.all_eq_true.mp hall c hc)
  · exact h c hc

theorem allNumeric_cons {c : Char} {text : List Char} (hc : Lexer.isNumeric c) (h : AllNumeric text) :
    AllNumeric (c :: text) :=
  List.forall_mem_cons.mpr ⟨hc, h⟩

theorem allNumeric_of_unsignedExponent? {text : List Char} {n : Nat}
    (h : unsignedExponent? text = some n) : AllNumeric text := by
  unfold unsignedExponent? at h
  split at h
  · cases h
  · rename_i hn
    refine allNumeric_of_dropWhile ?_
    rw [Decidable.not_not.mp (not_or.mp hn).2]
    exact fun _ hc => by cases hc

theorem allNumeric_of_exponent? {text : List Char} {e : Option Int} (h : exponent? text = some e) :
    AllNumeric text := by
  cases text with
  | nil => exact fun _ hc => by cases hc
  | cons mark r =>
    simp only [exponent?] at h
    split at h
    · cases h
    · rename_i hmark
      have hnumeric : Lexer.isNumeric mark := by
        by_cases he : mark = 'e'
        · simp [Lexer.isNumeric, he]
        · by_cases hE : mark = 'E'
          · simp [Lexer.isNumeric, hE]
          · exact absurd ⟨he, hE⟩ hmark
      refine allNumeric_cons hnumeric ?_
      split at h <;>
        obtain ⟨k, hk, -⟩ := Option.map_eq_some_iff.mp h <;>
        obtain ⟨n, hn, -⟩ := Option.bind_eq_some_iff.mp hk
      · exact allNumeric_cons rfl (allNumeric_of_unsignedExponent? hn)
      · exact allNumeric_cons rfl (allNumeric_of_unsignedExponent? hn)
      · exact allNumeric_of_unsignedExponent? hn

theorem allNumeric_of_fraction? {text rest : List Char} {ds : List Nat}
    (h : fraction? text = some (ds, rest)) (hrest : AllNumeric rest) : AllNumeric text := by
  unfold fraction? at h
  split at h
  · split at h
    · cases h
    · obtain ⟨-, rfl⟩ := Prod.mk.inj (Option.some.inj h)
      exact allNumeric_cons rfl (allNumeric_of_dropWhile hrest)
  · obtain ⟨-, rfl⟩ := Prod.mk.inj (Option.some.inj h)
    exact hrest

theorem unsigned?_eq_some {negative : Bool} {text : List Char} {n : Numeral}
    (h : unsigned? negative text = some n) :
    AllNumeric text ∧ ∃ c r, text = c :: r ∧ c.isDigit := by
  unfold unsigned? at h
  split at h
  · rename_i hwhole
    obtain ⟨⟨ds, rest⟩, hf, h⟩ := Option.bind_eq_some_iff.mp h
    obtain ⟨e, he, -⟩ := Option.map_eq_some_iff.mp h
    refine ⟨allNumeric_of_dropWhile (allNumeric_of_fraction? hf (allNumeric_of_exponent? he)), ?_⟩
    cases text with
    | nil => cases hwhole
    | cons c r =>
      refine ⟨c, r, rfl, ?_⟩
      cases hc : c.isDigit with
      | true => rfl
      | false => simp [digits, hc, isWhole] at hwhole
  · cases h

/-- What reads as a numeral is made of the characters of numerals. -/
theorem ofChars?_eq_some {text : List Char} {n : Numeral} (h : ofChars? text = some n) :
    AllNumeric text ∧ ∃ c r, text = c :: r ∧ (c = '-' ∨ c.isDigit) := by
  unfold ofChars? at h
  split at h
  · exact ⟨allNumeric_cons rfl (unsigned?_eq_some h).1, _, _, rfl, .inl rfl⟩
  · obtain ⟨hall, c, r, htext, hc⟩ := unsigned?_eq_some h
    exact ⟨hall, c, r, htext, .inr hc⟩

theorem decimal_numeric (k : Nat) : AllNumeric (Text.decimal k) := by
  intro c hc
  exact isNumeric_of_isDigit (Nat.isDigit_of_mem_toDigits (by decide) (by decide) hc)

theorem zeros_numeric (k : Nat) : AllNumeric (List.replicate k '0') := by
  intro c hc
  rw [List.eq_of_mem_replicate hc]
  rfl

theorem integerText_numeric (n : Int) : AllNumeric (integerText n) := by
  unfold integerText
  split
  · exact allNumeric_cons rfl (decimal_numeric _)
  · exact decimal_numeric _

theorem mantissa_numeric (ds : List Char) :
    AllNumeric ds → AllNumeric (match ds with | [] => [] | [c] => [c] | c :: r => c :: '.' :: r) := by
  intro h
  rcases ds with _ | ⟨c, _ | ⟨e, r⟩⟩
  · exact h
  · exact h
  · exact allNumeric_cons (h c List.mem_cons_self) (allNumeric_cons rfl (List.forall_mem_cons.mp h).2)

theorem decimalText_numeric (d : Binary64.Decimal) : AllNumeric (decimalText d) := by
  have hds := decimal_numeric d.digits
  simp only [decimalText]
  generalize Text.decimal d.digits = ds at hds
  split_ifs with hpositional hwhole hpoint
  · exact List.forall_mem_append.mpr ⟨List.forall_mem_append.mpr ⟨hds, zeros_numeric _⟩,
      allNumeric_cons rfl (zeros_numeric 1)⟩
  · exact List.forall_mem_append.mpr ⟨fun c hc => hds c (List.mem_of_mem_take hc),
      allNumeric_cons rfl fun c hc => hds c (List.mem_of_mem_drop hc)⟩
  · exact allNumeric_cons rfl (allNumeric_cons rfl
      (List.forall_mem_append.mpr ⟨zeros_numeric _, hds⟩))
  all_goals exact List.forall_mem_append.mpr ⟨mantissa_numeric ds hds, allNumeric_cons rfl
    (allNumeric_cons rfl (decimal_numeric _))⟩

theorem floatText_numeric (x : Binary64) : AllNumeric (floatText x) := by
  simp only [floatText]
  split_ifs
  · exact allNumeric_cons rfl (allNumeric_cons rfl (allNumeric_cons rfl (zeros_numeric 1)))
  · exact allNumeric_cons rfl (decimalText_numeric _)
  · exact allNumeric_cons rfl (allNumeric_cons rfl (zeros_numeric 1))
  · exact decimalText_numeric _

end Characters

section Marks

theorem eq_nil_of_exponent? {text : List Char} (h : exponent? text = some none) : text = [] := by
  cases text with
  | nil => rfl
  | cons mark r =>
    simp only [exponent?] at h
    split at h
    · cases h
    · split at h <;>
        obtain ⟨k, -, hk⟩ := Option.map_eq_some_iff.mp h <;>
        cases hk

theorem eq_of_fraction? {text rest : List Char} (h : fraction? text = some ([], rest)) : text = rest := by
  unfold fraction? at h
  split at h
  · split at h
    · cases h
    · exact absurd (Prod.mk.inj (Option.some.inj h)).1 ‹_›
  · exact (Prod.mk.inj (Option.some.inj h)).2

theorem isDigit_of_unsigned? {negative : Bool} {text : List Char} {n : Numeral}
    (h : unsigned? negative text = some n) (hn : n.integer? ≠ none) : ∀ c ∈ text, c.isDigit := by
  have hplain : n.fraction = [] ∧ n.exponent = none := by
    by_contra hp
    refine hn ?_
    simp only [integer?]
    rw [if_pos (not_and_or.mp hp)]
  unfold unsigned? at h
  split at h
  · obtain ⟨⟨ds, rest⟩, hfraction, h⟩ := Option.bind_eq_some_iff.mp h
    obtain ⟨e, hexponent, rfl⟩ := Option.map_eq_some_iff.mp h
    obtain ⟨rfl, rfl⟩ : ds = [] ∧ e = none := hplain
    rw [← List.dropWhile_eq_nil_iff, eq_of_fraction? hfraction]
    exact eq_nil_of_exponent? hexponent
  · cases h

/-- A numeral that means an integer has neither a point nor an exponent. -/
theorem integer?_eq_none {text : List Char} {n : Numeral} (h : ofChars? text = some n)
    (hmark : '.' ∈ text ∨ 'e' ∈ text) : n.integer? = none := by
  by_contra hn
  have hall : ∀ c ∈ text, c = '-' ∨ c.isDigit := by
    unfold ofChars? at h
    split at h
    · exact List.forall_mem_cons.mpr ⟨.inl rfl, fun c hc => .inr (isDigit_of_unsigned? h hn c hc)⟩
    · exact fun c hc => .inr (isDigit_of_unsigned? h hn c hc)
  rcases hmark with hmark | hmark <;> rcases hall _ hmark with h | h <;> cases h

theorem mark_mem_decimalText (d : Binary64.Decimal) : '.' ∈ decimalText d ∨ 'e' ∈ decimalText d := by
  simp only [decimalText]
  split_ifs
  · exact .inl (by simp)
  · exact .inl (by simp)
  · exact .inl (by simp)
  all_goals exact .inr (by simp)

theorem mark_mem_floatText (x : Binary64) : '.' ∈ floatText x ∨ 'e' ∈ floatText x := by
  simp only [floatText]
  split_ifs
  · exact .inl (by simp)
  · exact (mark_mem_decimalText _).imp (List.mem_cons_of_mem _) (List.mem_cons_of_mem _)
  · exact .inl (by simp)
  · exact mark_mem_decimalText _
end Marks

section Integers

theorem digits_decimal (k : Nat) :
    digits (Text.decimal k) = (Text.decimal k).map digit ∧
      (Text.decimal k).dropWhile Char.isDigit = [] := by
  have hall : ∀ c ∈ Text.decimal k, c.isDigit := by
    intro c hc
    exact Nat.isDigit_of_mem_toDigits (by decide) (by decide) hc
  exact ⟨congrArg (List.map digit) (List.takeWhile_eq_self_iff.mpr hall),
    List.dropWhile_eq_nil_iff.mpr hall⟩

theorem ofDigits_decimal (k : Nat) : Text.ofDigits 10 ((Text.decimal k).map digit) = k := by
  have h := Nat.ofDigitChars_ten_toDigits (n := k)
  rw [Nat.ofDigitChars_eq_foldl] at h
  simp only [Nat.mul_comm 10] at h
  rw [Text.ofDigits, List.foldl_map]
  exact h

/-- No zero stands before another digit. -/
theorem exists_decimal_cons {k : Nat} (hk : 0 < k) :
    ∃ d r, (Text.decimal k).map digit = d :: r ∧ d ≠ 0 := by
  induction k using Nat.strongRecOn with
  | ind k ih =>
    rw [Text.decimal, Nat.toDigits_eq_if (by decide)]
    by_cases h : k < 10
    · have hdigit : ∀ i : Fin 10, digit (Nat.digitChar i) = i.val := by decide
      refine ⟨k, [], ?_, by omega⟩
      rw [if_pos h, List.map_singleton, hdigit ⟨k, h⟩]
    · obtain ⟨d, r, hr, hd⟩ := ih (k / 10) (by omega) (by omega)
      refine ⟨d, r ++ [(k % 10).digitChar].map digit, ?_, hd⟩
      rw [if_neg h, List.map_append, show Nat.toDigits 10 (k / 10) = Text.decimal (k / 10) from rfl, hr,
        List.cons_append]

theorem isWhole_decimal (k : Nat) : isWhole ((Text.decimal k).map digit) = true := by
  rcases Nat.eq_zero_or_pos k with rfl | hk
  · decide
  · obtain ⟨d, r, h, hd⟩ := exists_decimal_cons hk
    rw [h]
    cases d with
    | zero => exact absurd rfl hd
    | succ d => rfl

theorem unsigned?_decimal (negative : Bool) (k : Nat) :
    unsigned? negative (Text.decimal k) = some ⟨negative, (Text.decimal k).map digit, [], none⟩ := by
  obtain ⟨hdigits, hrest⟩ := digits_decimal k
  simp only [unsigned?, hdigits, hrest, isWhole_decimal, ↓reduceIte, fraction?, Option.bind_some,
    exponent?, Option.map_some]

/-- The numeral that an integer is written as. -/
def ofInt (n : Int) : Numeral := ⟨n < 0, (Text.decimal n.natAbs).map digit, [], none⟩

theorem ofChars?_integerText (n : Int) : ofChars? (integerText n) = some (ofInt n) := by
  unfold integerText ofInt
  by_cases hn : n < 0
  · simp only [hn, ↓reduceIte, decide_true, ofChars?, unsigned?_decimal]
  · simp only [hn, ↓reduceIte, decide_false]
    have hhead : ∀ r, Text.decimal n.natAbs ≠ '-' :: r := by
      intro r hr
      have hc : '-' ∈ Nat.toDigits 10 n.natAbs := by
        change '-' ∈ Text.decimal n.natAbs
        rw [hr]
        exact List.mem_cons_self
      exact absurd (Nat.isDigit_of_mem_toDigits (by decide) (by decide) hc) (by decide)
    unfold ofChars?
    split
    · exact absurd ‹_› (hhead _)
    · exact unsigned?_decimal false n.natAbs

/-- The integers that a value can be. -/
def Fits (n : Int) : Prop := -(Nat.pow 2 63 : Int) ≤ n ∧ n < (UInt64.size : Int)

theorem value?_ofInt {n : Int} (h : Fits n) : (ofInt n).value? = some (.integer n) := by
  obtain ⟨hlow, hhigh⟩ := h
  have hinteger : (ofInt n).integer? = some n := by
    simp only [ofInt, integer?, ofDigits_decimal, ne_eq, not_true_eq_false, or_self, ↓reduceIte,
      decide_eq_true_eq]
    by_cases hn : n < 0
    · rw [if_pos hn, if_pos ⟨by omega, by omega⟩]
      congr 1
      omega
    · rw [if_neg hn, if_pos (by omega)]
      congr 1
      omega
  rw [value?, hinteger]

theorem fits_of_integer? {n : Numeral} {i : Int} (h : n.integer? = some i) : Fits i := by
  have hbound : (Nat.pow 2 63 : Int) < (UInt64.size : Int) := by decide
  simp only [integer?] at h
  generalize Text.ofDigits 10 n.whole = magnitude at h
  split_ifs at h with _ hnegative hrange hlt
  · obtain rfl := Option.some.inj h
    exact ⟨by omega, by omega⟩
  · obtain rfl := Option.some.inj h
    exact ⟨by omega, by omega⟩

/-- A numeral means an integer of 64 bits or a floating point number. -/
theorem value?_eq_some {n : Numeral} {v : Json} (h : n.value? = some v) :
    (∃ i, v = .integer i ∧ Fits i) ∨ ∃ x, v = .float x := by
  simp only [value?] at h
  split at h
  · exact .inl ⟨_, (Option.some.inj h).symm, fits_of_integer? ‹_›⟩
  · obtain ⟨x, -, rfl⟩ := Option.map_eq_some_iff.mp h
    exact .inr ⟨x, rfl⟩

end Integers

end AnnotationReport.Json.Numeral
