import AnnotationReport.Proofs.Binary64.Rounding
import AnnotationReport.Proofs.Json.Numerals
import AnnotationReport.Proofs.Text.Digits

/-! # The ratios that numerals write

A numeral writes a ratio exactly. The text of a number is a numeral too, and writes the shortest decimal of
the number.
-/
namespace AnnotationReport

def signed (negative : Bool) (r : ℚ) : ℚ := if negative then -r else r

def Binary64.shown (x : Binary64) : ℚ := signed x.negative (if x.isZero then 0 else x.shortest.value)

namespace Json.Numeral

def significand (n : Numeral) : Nat := Text.ofDigits 10 (n.whole ++ n.fraction)

/-- The power of ten that the last digit of a numeral counts. -/
def shift (n : Numeral) : Int := n.exponent.getD 0 - n.fraction.length

/-- The ratio that a numeral writes, whatever its size and its digits. -/
def value (n : Numeral) : ℚ := signed n.negative (n.significand * 10 ^ n.shift)

section Digits

theorem ofDigits_append (first second : List Nat) :
    Text.ofDigits 10 (first ++ second) =
      Text.ofDigits 10 first * 10 ^ second.length + Text.ofDigits 10 second := by
  induction second using List.reverseRecOn with
  | nil => simp [Text.ofDigits]
  | append_singleton r d ih =>
    rw [← List.append_assoc, Text.ofDigits_concat, Text.ofDigits_concat, ih, List.length_append,
      List.length_singleton, Nat.pow_succ]
    ring

theorem ofDigits_zeros (k : Nat) : Text.ofDigits 10 (List.replicate k 0) = 0 := by
  induction k with
  | zero => rfl
  | succ k ih =>
    rw [List.replicate_succ', ofDigits_append, ih]
    rfl

def EndsDigits : List Char → Prop
  | [] => True
  | c :: _ => c.isDigit = false

abbrev AllDigits (text : List Char) : Prop := ∀ c ∈ text, c.isDigit = true

variable {whole fraction rest : List Char}

theorem takeWhile_endsDigits (h : EndsDigits rest) :
    rest.takeWhile Char.isDigit = [] ∧ rest.dropWhile Char.isDigit = rest := by
  cases rest with
  | nil => exact ⟨rfl, rfl⟩
  | cons c r =>
    have hc : c.isDigit = false := h
    simp [hc]

theorem digits_append (hall : AllDigits whole) (hrest : EndsDigits rest) :
    digits (whole ++ rest) = whole.map digit ∧ (whole ++ rest).dropWhile Char.isDigit = rest := by
  obtain ⟨htake, hdrop⟩ := takeWhile_endsDigits hrest
  rw [digits, List.takeWhile_append_of_pos hall, List.dropWhile_append_of_pos hall, htake, hdrop,
    List.append_nil]
  exact ⟨rfl, rfl⟩

theorem fraction?_point (fraction rest : List Char) (hall : AllDigits fraction) (hne : fraction ≠ [])
    (hrest : EndsDigits rest) :
    fraction? ('.' :: (fraction ++ rest)) = some (fraction.map digit, rest) := by
  obtain ⟨hdigits, hdrop⟩ := digits_append hall hrest
  have hne' : fraction.map digit ≠ [] := by simpa using hne
  simp only [fraction?, hdigits, hdrop, hne', ↓reduceIte]

theorem allDigits_decimal (k : Nat) : AllDigits (Text.decimal k) :=
  fun _ hc => Nat.isDigit_of_mem_toDigits (by decide) (by decide) hc

theorem allDigits_zeros (k : Nat) : AllDigits (List.replicate k '0') := by
  intro c hc
  rw [List.eq_of_mem_replicate hc]
  rfl

theorem decimal_ne_nil (k : Nat) : Text.decimal k ≠ [] := by
  intro h
  have hwhole := isWhole_decimal k
  rw [h] at hwhole
  cases hwhole

theorem exponent?_mark (negative : Bool) (k : Nat) :
    exponent? ('e' :: (if negative then '-' else '+') :: Text.decimal k) =
      some (some (if negative then -(k : Int) else k)) := by
  obtain ⟨hdigits, hrest⟩ := digits_decimal k
  have hne : (Text.decimal k).map digit ≠ [] := by simpa using decimal_ne_nil k
  have hnumber : unsignedExponent? (Text.decimal k) = some k := by
    simp only [unsignedExponent?, hdigits, hrest, hne, ne_eq, not_true_eq_false, or_self, ↓reduceIte,
      ofDigits_decimal]
  cases negative <;> simp [exponent?, hnumber]

theorem unsigned?_append {negative : Bool} {after : List Char} {fraction : List Nat} {exponent : Option Int}
    (whole rest : List Char) (hall : AllDigits whole) (hwhole : isWhole (whole.map digit) = true)
    (hrest : EndsDigits rest)
    (hfraction : fraction? rest = some (fraction, after)) (hexponent : exponent? after = some exponent) :
    unsigned? negative (whole ++ rest) = some ⟨negative, whole.map digit, fraction, exponent⟩ := by
  obtain ⟨hdigits, hdrop⟩ := digits_append hall hrest
  simp only [unsigned?, hdigits, hdrop, hwhole, ↓reduceIte, hfraction, Option.bind_some, hexponent,
    Option.map_some]

end Digits

section Texts

theorem isWhole_append (first : List Nat) {second : List Nat} (h : ∃ d r, first = d :: r ∧ d ≠ 0) :
    isWhole (first ++ second) = true := by
  obtain ⟨d, r, rfl, hd⟩ := h
  cases d with
  | zero => exact absurd rfl hd
  | succ d => rfl

theorem value_eq {n : Numeral} {k : Nat} {e : Int} (hdigits : n.significand = k) (hshift : n.shift = e) :
    n.value = signed n.negative (k * 10 ^ e) := by
  rw [value, hdigits, hshift]

variable {k : Nat} (negative : Bool)

/-- Zeros up to the point, and one after it. -/
theorem unsigned?_whole (hk : 0 < k) (e : Nat) :
    ∃ n, unsigned? negative (Text.decimal k ++ List.replicate e '0' ++ ['.', '0']) = some n ∧
      n.value = signed negative (k * 10 ^ (e : Int)) := by
  have hall : AllDigits (Text.decimal k ++ List.replicate e '0') :=
    List.forall_mem_append.mpr ⟨allDigits_decimal k, allDigits_zeros e⟩
  have hmap : (Text.decimal k ++ List.replicate e '0').map digit =
      (Text.decimal k).map digit ++ List.replicate e 0 := by
    rw [List.map_append, List.map_replicate]
    rfl
  have hwhole : isWhole ((Text.decimal k ++ List.replicate e '0').map digit) = true := by
    rw [hmap]
    exact isWhole_append _ (exists_decimal_cons hk)
  refine ⟨_, unsigned?_append _ ['.', '0'] hall hwhole rfl rfl rfl, ?_⟩
  have hdigits : Text.ofDigits 10 ((Text.decimal k).map digit ++ List.replicate e 0 ++ [0]) =
      k * 10 ^ e * 10 := by
    rw [ofDigits_append, ofDigits_append, ofDigits_decimal, ofDigits_zeros, List.length_replicate]
    rfl
  rw [value_eq (k := k * 10 ^ e * 10) (e := -1) (by rw [← hdigits, ← hmap]; rfl) rfl]
  congr 1
  push_cast
  rw [zpow_natCast, zpow_neg_one]
  ring

/-- The point stands between the digits. -/
theorem unsigned?_point (hk : 0 < k) {i : Nat} (hpos : 0 < i) (hi : i < (Text.decimal k).length) :
    ∃ n, unsigned? negative ((Text.decimal k).take i ++ '.' :: (Text.decimal k).drop i) = some n ∧
      n.value = signed negative (k * 10 ^ ((i : Int) - (Text.decimal k).length)) := by
  have hall := allDigits_decimal k
  have hdigits := ofDigits_decimal k
  obtain ⟨d, r, hcons, hd⟩ := exists_decimal_cons hk
  generalize Text.decimal k = ds at *
  have hfraction : fraction? ('.' :: ds.drop i) = some ((ds.drop i).map digit, []) := by
    have hpoint := fraction?_point (ds.drop i) []
      (fun c hc => hall c (List.mem_of_mem_drop hc)) (by simpa using hi) trivial
    rwa [List.append_nil] at hpoint
  have hwhole : isWhole ((ds.take i).map digit) = true := by
    obtain ⟨j, rfl⟩ := Nat.exists_eq_succ_of_ne_zero hpos.ne'
    rw [List.map_take, hcons, List.take_succ_cons]
    exact isWhole_append [d] ⟨d, [], rfl, hd⟩
  refine ⟨_, unsigned?_append (ds.take i) ('.' :: ds.drop i)
    (fun c hc => hall c (List.mem_of_mem_take hc)) hwhole rfl hfraction rfl, ?_⟩
  refine value_eq ?_ ?_
  · rw [significand, ← List.map_append, List.take_append_drop]
    exact hdigits
  · simp only [shift, Option.getD_none, List.length_map, List.length_drop]
    omega

/-- Zeros stand between the point and the digits. -/
theorem unsigned?_small (j : Nat) :
    ∃ n, unsigned? negative ('0' :: '.' :: List.replicate j '0' ++ Text.decimal k) = some n ∧
      n.value = signed negative (k * 10 ^ (-(j : Int) - (Text.decimal k).length)) := by
  have hall : AllDigits (List.replicate j '0' ++ Text.decimal k) :=
    List.forall_mem_append.mpr ⟨allDigits_zeros j, allDigits_decimal k⟩
  have hne : List.replicate j '0' ++ Text.decimal k ≠ [] := by simp [decimal_ne_nil k]
  have hfraction := fraction?_point _ [] hall hne trivial
  rw [List.append_nil] at hfraction
  refine ⟨_, unsigned?_append ['0'] _ (List.forall_mem_singleton.mpr rfl) rfl rfl hfraction rfl, ?_⟩
  refine value_eq ?_ ?_
  · rw [significand, List.map_append, List.map_replicate, ofDigits_append, ofDigits_append,
      ofDigits_decimal]
    have hzeros : Text.ofDigits 10 (List.replicate j (digit '0')) = 0 := ofDigits_zeros j
    rw [hzeros]
    simp [Text.ofDigits, digit]
  · simp only [shift, Option.getD_none, List.length_map, List.length_append, List.length_replicate]
    omega

/-- One digit stands before the point, if there are others, and the exponent says where it belongs. -/
theorem unsigned?_scientific (down : Bool) (t : Nat) :
    ∃ n, unsigned? negative
        ((match Text.decimal k with
          | [] => []
          | [c] => [c]
          | c :: r => c :: '.' :: r) ++ 'e' :: (if down then '-' else '+') :: Text.decimal t) = some n ∧
      n.value = signed negative
        (k * 10 ^ ((if down then -(t : Int) else t) - ((Text.decimal k).length - 1))) := by
  have hall := allDigits_decimal k
  have hdigits := ofDigits_decimal k
  have hwhole := isWhole_decimal k
  have hexponent := exponent?_mark down t
  have hends : EndsDigits ('e' :: (if down then '-' else '+') :: Text.decimal t) := rfl
  have hplain : fraction? ('e' :: (if down then '-' else '+') :: Text.decimal t) =
      some ([], 'e' :: (if down then '-' else '+') :: Text.decimal t) := rfl
  generalize Text.decimal k = ds at *
  generalize 'e' :: (if down then '-' else '+') :: Text.decimal t = after at *
  have hone : ∀ c, isWhole ([c].map digit) = true := by
    intro c
    rw [List.map_singleton]
    cases digit c <;> rfl
  match ds with
  | [] => cases hwhole
  | [c] => exact ⟨_, unsigned?_append _ _ hall (hone c) hends hplain hexponent, value_eq hdigits (by simp [shift])⟩
  | c :: d :: r =>
    obtain ⟨hc, hr⟩ := List.forall_mem_cons.mp hall
    have hfraction := fraction?_point _ _ hr (List.cons_ne_nil d r) hends
    refine ⟨_, unsigned?_append [c] _ (List.forall_mem_singleton.mpr hc) (hone c) rfl
      hfraction hexponent, value_eq hdigits ?_⟩
    simp [shift]

/-- The text of a decimal writes the decimal, in each of its four forms. -/
theorem unsigned?_decimalText {d : Binary64.Decimal} (h : 0 < d.digits) :
    ∃ n, unsigned? negative (decimalText d) = some n ∧ n.value = signed negative d.value := by
  have hpos : 0 < (Text.decimal d.digits).length := List.length_pos_iff.mpr (decimal_ne_nil d.digits)
  unfold decimalText Binary64.Decimal.value
  dsimp only
  generalize d.exponent = e
  generalize htop : e + (Text.decimal d.digits).length - 1 = top
  by_cases hpositional : positionalFrom ≤ top ∧ top < positionalUpTo
  · rw [if_pos hpositional]
    split_ifs with hwhole hpoint
    · lift e to ℕ using hwhole
      exact unsigned?_whole negative h e
    · obtain ⟨n, hn, hvalue⟩ := unsigned?_point negative h (i := top.toNat + 1) (by omega) (by omega)
      refine ⟨n, hn, hvalue.trans ?_⟩
      congr 3
      omega
    · obtain ⟨n, hn, hvalue⟩ := unsigned?_small negative (k := d.digits) (-top - 1).toNat
      refine ⟨n, hn, hvalue.trans ?_⟩
      congr 3
      omega
  · rw [if_neg hpositional]
    obtain ⟨n, hn, hvalue⟩ := unsigned?_scientific negative (k := d.digits) (decide (top < 0)) top.natAbs
    simp only [decide_eq_true_eq] at hn hvalue
    refine ⟨n, hn, hvalue.trans ?_⟩
    congr 3
    split <;> omega

theorem ofChars?_of_unsigned? {text : List Char} {n : Numeral} (h : unsigned? false text = some n) :
    ofChars? text = some n := by
  obtain ⟨-, c, r, rfl, hc⟩ := unsigned?_eq_some h
  unfold ofChars?
  split
  · rename_i heq
    obtain ⟨rfl, -⟩ := List.cons.inj heq
    cases hc
  · exact h

/-- The text of a number is a numeral, which writes what is shown of the number. -/
theorem ofChars?_floatText (x : Binary64) :
    ∃ n, ofChars? (floatText x) = some n ∧ n.value = x.shown := by
  have hmagnitude : ∀ negative, ∃ n,
      unsigned? negative (if x.isZero then ['0', '.', '0'] else decimalText x.shortest) = some n ∧
        n.value = signed negative (if x.isZero then 0 else x.shortest.value) := by
    intro negative
    cases hx : x.isZero with
    | true =>
      refine ⟨⟨negative, [0], [0], none⟩, rfl, ?_⟩
      simp [value, significand, Text.ofDigits]
    | false =>
      refine unsigned?_decimalText negative ?_
      have hvalue := (Binary64.shortest_holds hx).pos hx
      by_contra hzero
      rw [Binary64.Decimal.value, Nat.eq_zero_of_not_pos hzero] at hvalue
      simp at hvalue
  obtain ⟨n, hn, hvalue⟩ := hmagnitude x.negative
  refine ⟨n, ?_, hvalue⟩
  unfold floatText
  dsimp only
  cases hnegative : x.negative with
  | true =>
    rw [hnegative] at hn
    exact hn
  | false =>
    rw [hnegative] at hn
    exact ofChars?_of_unsigned? hn

end Texts

section Reading

variable {n : Numeral}

theorem value_of_integer? {i : Int} (h : n.integer? = some i) : n.value = i := by
  simp only [integer?] at h
  split_ifs at h with hform hnegative hrange hlt
  all_goals
    obtain ⟨hfraction, hexponent⟩ := not_or.mp hform
    have hsignificand : n.significand = Text.ofDigits 10 n.whole := by
      rw [significand, not_not.mp hfraction, List.append_nil]
    have hshift : n.shift = 0 := by
      rw [shift, not_not.mp hfraction, not_not.mp hexponent]
      rfl
    obtain rfl := Option.some.inj h
    rw [value, hsignificand, hshift]
    simp [signed, hnegative]

theorem value_ofInt (i : Int) : (ofInt i).value = i := by
  have hsignificand : (ofInt i).significand = i.natAbs := by
    rw [significand, ofInt, List.append_nil, ofDigits_decimal]
  have habs : ((i.natAbs : ℕ) : ℚ) = |(i : ℚ)| := by
    rw [Nat.cast_natAbs, Int.cast_abs]
  rw [value_eq hsignificand (e := 0) rfl, zpow_zero, mul_one, habs]
  by_cases hi : i < 0
  · have hiq : (i : ℚ) < 0 := by exact_mod_cast hi
    simp [signed, ofInt, hi, abs_of_neg hiq]
  · have hiq : (0 : ℚ) ≤ i := by exact_mod_cast not_lt.mp hi
    simp [signed, ofInt, hi, abs_of_nonneg hiq]

/-- Digits are taken in one by one, so that the number only grows. -/
theorem absorb_eq {k : Nat} {ds : List Nat} (h : ds.foldl (fun n d => n * 10 + d) k < UInt64.size) :
    absorb k ds = (ds.foldl (fun n d => n * 10 + d) k, []) := by
  induction ds generalizing k with
  | nil => rfl
  | cons d r ih =>
    have hgrows : ∀ (ds : List Nat) (k : Nat), k ≤ ds.foldl (fun n d => n * 10 + d) k := by
      intro ds
      induction ds with
      | nil => exact fun k => Nat.le_refl k
      | cons d r ih => exact fun k => Nat.le_trans (by omega) (ih (k * 10 + d))
    have hlt : k * 10 + d < UInt64.size := Nat.lt_of_le_of_lt (hgrows r _) h
    rw [absorb, if_pos hlt]
    exact ih h

theorem parts_eq (h : n.significand < UInt64.size) : n.parts = (n.significand, n.shift) := by
  have hwhole : Text.ofDigits 10 n.whole < UInt64.size := by
    have hsplit := ofDigits_append n.whole n.fraction
    have hpos : 1 ≤ 10 ^ n.fraction.length := Nat.one_le_pow _ _ (by decide)
    have hle := Nat.le_mul_of_pos_right (Text.ofDigits 10 n.whole) hpos
    have hsum : n.significand = Text.ofDigits 10 (n.whole ++ n.fraction) := rfl
    omega
  have hall : n.fraction.foldl (fun n d => n * 10 + d) (Text.ofDigits 10 n.whole) = n.significand := by
    rw [significand, Text.ofDigits, Text.ofDigits, List.foldl_append]
  have hfirst : absorb 0 n.whole = (Text.ofDigits 10 n.whole, []) := absorb_eq hwhole
  have hsecond : absorb (Text.ofDigits 10 n.whole) n.fraction = (n.significand, []) := by
    rw [absorb_eq (by rw [hall]; exact h), hall]
  simp only [parts, hfirst, hsecond, List.length_nil, shift]
  congr 1
  omega

end Reading

section Short

open Binary64

variable {n : Numeral} {x : Binary64}

/-- At most fifteen digits, and a power of ten that is a floating point number itself. -/
structure Short (n : Numeral) : Prop where
  digits : n.significand ≤ 10 ^ 15
  low : -22 ≤ n.shift
  high : n.shift ≤ 22

theorem isZero_of_magnitude_pos (h : 0 < x.magnitude) : x.isZero = false := by
  by_contra hzero
  have hplace : x.place = 0 := by simpa [isZero] using hzero
  have hmantissa : x.mantissa = 0 := by
    rw [mantissa, if_pos (by rw [hplace]; decide), hplace]
  rw [magnitude, hmantissa] at h
  simp at h

theorem exists_power {k : Nat} (hk : k ≤ 22) : ∃ x, power k = some x ∧ x.magnitude = 10 ^ k := by
  have hfive : 5 ^ k < 2 * block := lt_of_le_of_lt (Nat.pow_le_pow_right (by decide) hk) (by decide)
  have hten : Nat.pow 10 k = 5 ^ k * 2 ^ k := by rw [Nat.pow_eq, ← Nat.mul_pow]
  obtain ⟨x, hx, hmagnitude⟩ := exists_magnitude_eq false (j := k) (by positivity) hfive (by omega)
  refine ⟨x, by rw [power, hten, hx], ?_⟩
  rw [hmagnitude]
  push_cast
  rw [← mul_pow]
  norm_num

/-- One rounding leads from a short decimal to a number, so that the decimal is its shortest. -/
theorem shortest_of_holds {m : Nat} {e : Int} (hpos : 0 < m) (hm : m ≤ 10 ^ 15) (he : -22 ≤ e)
    (h : x.neighbourhood.Holds (m * 10 ^ e)) : x.isZero = false ∧ x.shortest.value = m * 10 ^ e := by
  have hlarge : (2 : ℚ) ^ (-1022 : Int) ≤ m * 10 ^ e := by
    have hmq : (1 : ℚ) ≤ m := by exact_mod_cast hpos
    calc (2 : ℚ) ^ (-1022 : Int)
      _ ≤ 2 ^ (-74 : Int) := zpow_le_zpow_right₀ (by norm_num) (by norm_num)
      _ ≤ 10 ^ (-22 : Int) := by norm_num
      _ ≤ 10 ^ e := zpow_le_zpow_right₀ (by norm_num) he
      _ ≤ m * 10 ^ e := le_mul_of_one_le_left (by positivity) hmq
  obtain ⟨hnormal, hx⟩ := h.normal hlarge
  exact ⟨hx, shortest_value_eq hnormal hx hm h⟩

/-- The magnitude of a short decimal is read with one rounding, since its digits and the power of ten are
both kept as they are. -/
theorem exists_scaled {m : Nat} {e : Int} {s : Binary64} (hpos : 0 < m) (hm : m ≤ 10 ^ 15) (hlow : -22 ≤ e)
    (hhigh : e ≤ 22) (hs : s.magnitude = m) :
    ∃ y, (if 0 ≤ e then (power e.toNat).bind s.mul? else (power (-e).toNat).bind s.div?) = some y ∧
      y.neighbourhood.Holds (m * 10 ^ e) := by
  have hszero : s.isZero = false := isZero_of_magnitude_pos (by rw [hs]; exact_mod_cast hpos)
  have hsmall : (m : ℚ) * 10 ^ e < 2 ^ (1023 : Int) := by
    have hmq : (m : ℚ) ≤ 10 ^ 15 := by exact_mod_cast hm
    calc (m : ℚ) * 10 ^ e
      _ ≤ 10 ^ 15 * 10 ^ (22 : Int) := by
        gcongr
        norm_num
      _ < 2 ^ (123 : Int) := by norm_num
      _ ≤ 2 ^ (1023 : Int) := zpow_le_zpow_right₀ (by norm_num) (by norm_num)
  obtain ⟨p, hp, hpower⟩ := exists_power (k := e.natAbs) (by omega)
  have hpzero := isZero_of_magnitude_pos (by rw [hpower]; positivity)
  split_ifs with hup
  · have hmul := mul?_eq hszero hpzero
    rw [hs, hpower, ← zpow_natCast, Int.natAbs_of_nonneg hup] at hmul
    obtain ⟨y, hy, hholds⟩ := exists_holds hmul hsmall
    exact ⟨y, by rw [show e.toNat = e.natAbs by omega, hp, Option.bind_some, hy], hholds⟩
  · have hdiv := div?_eq hszero hpzero
    rw [hs, hpower, ← zpow_natCast, Int.ofNat_natAbs_of_nonpos (by omega), zpow_neg, div_inv_eq_mul] at hdiv
    obtain ⟨y, hy, hholds⟩ := exists_holds hdiv hsmall
    exact ⟨y, by rw [show (-e).toNat = e.natAbs by omega, hp, Option.bind_some, hy], hholds⟩

/-- A short numeral is read as a number that is shown as the ratio that the numeral writes. -/
theorem exists_shown (h : n.Short) : ∃ x, n.toBinary64? = some x ∧ x.shown = n.value := by
  obtain ⟨hdigits, hlow, hhigh⟩ := h
  have hparts : n.parts = (n.significand, n.shift) := parts_eq (lt_of_le_of_lt hdigits (by decide))
  have hone : -308 ≤ n.shift := by omega
  have htwo : ¬308 < n.shift := by omega
  simp only [toBinary64?, hparts, hone, htwo, ↓reduceIte]
  by_cases hzero : n.significand = 0
  · refine ⟨(Binary64.zero false).withSign n.negative, by rw [if_pos hzero, Option.map_some],
      congrArg (signed n.negative) ?_⟩
    rw [hzero]
    simp [withSign, Binary64.zero, isZero]
  · have hpos : 0 < n.significand := Nat.pos_of_ne_zero hzero
    obtain ⟨s, hs, hmagnitude⟩ := exists_magnitude_eq false (a := n.significand) (j := 0) hpos
      (lt_of_le_of_lt hdigits (by decide)) (by decide)
    rw [Nat.pow_zero, Nat.mul_one] at hs
    rw [pow_zero, mul_one] at hmagnitude
    obtain ⟨y, hy, hholds⟩ := exists_scaled hpos hdigits hlow hhigh hmagnitude
    obtain ⟨hyzero, hshortest⟩ := shortest_of_holds hpos hdigits hlow hholds
    refine ⟨y.withSign n.negative, by rw [if_neg hzero, hs, Option.bind_some, hy, Option.map_some],
      congrArg (signed n.negative) ?_⟩
    have hsame : (y.withSign n.negative).isZero = y.isZero := rfl
    rw [hsame, hyzero]
    exact hshortest

end Short
end Json.Numeral
end AnnotationReport
