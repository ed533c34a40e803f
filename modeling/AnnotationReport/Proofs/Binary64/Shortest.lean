import AnnotationReport.Binary64.Shortest
import Mathlib.Algebra.Order.Field.Power
import Mathlib.Algebra.Order.Floor.Semifield
import Mathlib.Data.Int.Log
import Mathlib.Data.Rat.Floor
import Mathlib.Tactic.GCongr
import Mathlib.Tactic.Linarith
import Mathlib.Tactic.Positivity
import Mathlib.Tactic.Ring

/-! # Decimals near a number

Neighbourhoods as intervals of ratios. In units of a power of ten a neighbourhood is the same interval,
and if it has a whole number at all it has one of the two next to its value. Among decimals of seventeen
digits there always is one, so the shortest decimal of a number is found in its neighbourhood.
-/
namespace AnnotationReport.Binary64

/-- The ratio that a decimal writes. -/
def Decimal.value (d : Decimal) : ℚ := d.digits * 10 ^ d.exponent

def magnitude (x : Binary64) : ℚ := x.mantissa * 2 ^ x.exponent

theorem ten_pow_mul_zpow (n : ℕ) (k : ℤ) : (10 : ℚ) ^ n * 10 ^ k = 10 ^ (n + k) := by
  rw [← zpow_natCast, zpow_add₀ (by norm_num)]

theorem two_zpow_add (e k : ℤ) : (2 : ℚ) ^ (e + k) = 2 ^ e * 2 ^ k := zpow_add₀ (by norm_num) e k

section Scale

theorem scale_den_pos {den : Nat} (num : Nat) (h : 0 < den) (e : Int) : 0 < (scale num den e).2 := by
  unfold scale
  split
  · exact Nat.mul_pos h (Nat.pow_pos (by decide))
  · exact h

theorem scale_num_pos {num : Nat} (den : Nat) (h : 0 < num) (e : Int) : 0 < (scale num den e).1 := by
  unfold scale
  split
  · exact h
  · exact Nat.mul_pos h (Nat.pow_pos (by decide))

theorem scale_ratio (num den : Nat) (e : Int) :
    ((scale num den e).1 : ℚ) / (scale num den e).2 = num / den * 2 ^ (-e) := by
  unfold scale
  split
  · rename_i h
    lift e to ℕ using h
    simp [zpow_neg, div_mul_eq_div_div]
    ring
  · rename_i h
    obtain ⟨n, hn⟩ : ∃ n : ℕ, -e = n := ⟨(-e).toNat, by omega⟩
    simp [hn]
    ring

end Scale

section Logarithms

/-- The exponent of a power is known from the powers around a ratio. -/
theorem log_eq {b : Nat} (hb : 1 < b) {r : ℚ} {t : Int} (hlow : (b : ℚ) ^ t ≤ r)
    (hhigh : r < (b : ℚ) ^ (t + 1)) : Int.log b r = t := by
  have hpos : (0 : ℚ) < (b : ℚ) ^ t := zpow_pos (by exact_mod_cast Nat.zero_lt_of_lt hb) t
  have hr : 0 < r := lt_of_lt_of_le hpos hlow
  have h1 := (Int.zpow_le_iff_le_log hb hr).mp hlow
  have h2 := (Int.lt_zpow_iff_log_lt hb hr).mp hhigh
  omega

theorem length_toDigits (n : Nat) : (Nat.toDigits 10 n).length = Nat.log 10 n + 1 := by
  induction n using Nat.strongRecOn with
  | ind n ih =>
    rw [Nat.toDigits_eq_if (by decide)]
    by_cases h : n < 10
    · rw [if_pos h, Nat.log_of_lt h, List.length_singleton]
    · have hlog : Nat.log 10 n = Nat.log 10 (n / 10) + 1 :=
        Nat.log_of_one_lt_of_le (by decide) (Nat.le_of_not_lt h)
      rw [if_neg h, List.length_append, ih (n / 10) (by omega), hlog, List.length_singleton]

theorem floorLog10_eq {num den : Nat} (hnum : 0 < num) (hden : 0 < den) :
    floorLog10 num den = Int.log 10 ((num : ℚ) / den) := by
  have hdenq : (0 : ℚ) < den := by exact_mod_cast hden
  unfold floorLog10
  split
  · rename_i h
    have hone : (1 : ℚ) ≤ (num : ℚ) / den := by
      rw [le_div_iff₀ hdenq, one_mul]
      exact_mod_cast h
    rw [length_toDigits, Int.log_of_one_le_right _ hone, Nat.floor_div_eq_div]
    omega
  · rename_i h
    have hquot : (den - 1) / num ≠ 0 := (Nat.div_pos (by omega) hnum).ne'
    have hlow : 10 ^ Nat.log 10 ((den - 1) / num) * num ≤ den - 1 :=
      (Nat.le_div_iff_mul_le hnum).mp (Nat.pow_log_le_self 10 hquot)
    have hhigh : den - 1 < 10 ^ (Nat.log 10 ((den - 1) / num) + 1) * num :=
      (Nat.div_lt_iff_lt_mul hnum).mp (Nat.lt_pow_succ_log_self (by decide) _)
    rw [length_toDigits]
    generalize Nat.log 10 ((den - 1) / num) = l at hlow hhigh
    have hlowq : (10 : ℚ) ^ l * num < den := by exact_mod_cast (by omega : 10 ^ l * num < den)
    have hhighq : (den : ℚ) ≤ 10 ^ (l + 1) * num := by exact_mod_cast (by omega : den ≤ 10 ^ (l + 1) * num)
    symm
    refine log_eq (by decide) ?_ ?_
    · rw [Nat.cast_ofNat, zpow_neg, zpow_natCast, le_div_iff₀ hdenq, inv_mul_le_iff₀ (by positivity)]
      exact hhighq
    · have hexponent : -((l + 1 : ℕ) : Int) + 1 = -(l : Int) := by push_cast; ring
      rw [hexponent, Nat.cast_ofNat, zpow_neg, zpow_natCast, div_lt_iff₀ hdenq,
        lt_inv_mul_iff₀ (by positivity)]
      exact hlowq

end Logarithms

namespace Neighbourhood

variable {a : Neighbourhood} {q : Nat} {r s t : ℚ} {k : Int}

def Holds (a : Neighbourhood) (r : ℚ) : Prop :=
  if a.closed then (a.low : ℚ) ≤ r * a.den ∧ r * a.den ≤ a.high
  else (a.low : ℚ) < r * a.den ∧ r * a.den < a.high

theorem has_iff : a.has q = true ↔ a.Holds q := by
  unfold has Holds
  cases a.closed <;> simp <;> norm_cast

theorem Holds.between (hr : a.Holds r) (ht : a.Holds t) (hrs : r ≤ s) (hst : s ≤ t) : a.Holds s := by
  have hden : (0 : ℚ) ≤ a.den := Nat.cast_nonneg _
  have hlow : r * a.den ≤ s * a.den := mul_le_mul_of_nonneg_right hrs hden
  have hhigh : s * a.den ≤ t * a.den := mul_le_mul_of_nonneg_right hst hden
  unfold Holds at *
  split at hr
  · rename_i hclosed
    rw [if_pos hclosed] at *
    exact ⟨hr.1.trans hlow, hhigh.trans ht.2⟩
  · rename_i hclosed
    rw [if_neg hclosed] at *
    exact ⟨hr.1.trans_le hlow, hhigh.trans_lt ht.2⟩

theorem inUnits_holds : (a.inUnits k).Holds r ↔ a.Holds (r * 10 ^ k) := by
  unfold inUnits
  split
  · rename_i h
    lift k to ℕ using h
    simp only [Holds, Int.toNat_natCast, Nat.pow_eq, Nat.cast_mul, Nat.cast_pow, Nat.cast_ofNat,
      zpow_natCast, mul_assoc, mul_comm ((10 : ℚ) ^ k)]
  · rename_i h
    obtain ⟨n, hn⟩ : ∃ n : ℕ, k = -n := ⟨(-k).toNat, by omega⟩
    have hpos : (0 : ℚ) < 10 ^ n := by positivity
    simp only [Holds, hn, neg_neg, Int.toNat_natCast, Nat.pow_eq, Nat.cast_mul, Nat.cast_pow,
      Nat.cast_ofNat, zpow_neg, zpow_natCast]
    have hmul : r * ((10 : ℚ) ^ n)⁻¹ * a.den = r * a.den / 10 ^ n := by ring
    rw [hmul, le_div_iff₀ hpos, lt_div_iff₀ hpos, div_le_iff₀ hpos, div_lt_iff₀ hpos]

def center (a : Neighbourhood) : ℚ := a.value / a.den

theorem inUnits_center : (a.inUnits k).center = a.center / 10 ^ k := by
  unfold inUnits center
  split
  · rename_i h
    lift k to ℕ using h
    simp [div_mul_eq_div_div]
  · rename_i h
    obtain ⟨n, hn⟩ : ∃ n : ℕ, k = -n := ⟨(-k).toNat, by omega⟩
    simp [hn]
    ring

/-- A whole number that is chosen is one of the two next to the value. -/
theorem whole?_eq_some (h : a.whole? = some q) :
    a.Holds q ∧ (q = a.value / a.den ∨ q = a.value / a.den + 1) := by
  rw [← has_iff]
  unfold whole? at h
  dsimp only at h
  split at h <;> cases h
  · rename_i hfloor hnext
    split_ifs
    · exact ⟨hfloor, .inl rfl⟩
    · exact ⟨hnext, .inr rfl⟩
    · rcases Nat.mod_two_eq_zero_or_one (a.value / a.den) with hm | hm <;> rw [hm]
      · exact ⟨hfloor, .inl rfl⟩
      · exact ⟨hnext, .inr rfl⟩
  · exact ⟨‹_›, .inl rfl⟩
  · exact ⟨‹_›, .inr rfl⟩

/-- If any whole number belongs to a neighbourhood, one of the two next to its value does. -/
theorem isSome_whole? (hcenter : a.Holds a.center) (h : a.Holds q) :
    a.whole?.isSome := by
  have hfloor : ⌊a.center⌋₊ = a.value / a.den := Nat.floor_div_eq_div a.value a.den
  have hnonneg : 0 ≤ a.center := div_nonneg (Nat.cast_nonneg _) (Nat.cast_nonneg _)
  have hnext : a.has (a.value / a.den) = true ∨ a.has (a.value / a.den + 1) = true := by
    simp only [has_iff, ← hfloor]
    rcases le_or_gt (q : ℚ) a.center with hq | hq
    · refine .inl (h.between hcenter ?_ (Nat.floor_le hnonneg))
      exact_mod_cast Nat.le_floor hq
    · refine .inr (hcenter.between h ?_ ?_)
      · exact_mod_cast (Nat.lt_floor_add_one a.center).le
      · exact_mod_cast (Nat.floor_lt hnonneg).mpr hq
  unfold whole?
  dsimp only
  rcases hnext with hn | hn <;> rw [hn]
  · cases a.has (a.value / a.den + 1) <;> rfl
  · cases a.has (a.value / a.den) <;> rfl

end Neighbourhood

section Numbers

variable {x : Binary64} {r : ℚ}

theorem mantissa_pos (h : x.isZero = false) : 0 < x.mantissa := by
  have hplace : x.place ≠ 0 := by simpa [isZero] using h
  have hblock : 0 < block := by decide
  unfold mantissa
  split <;> omega

theorem mantissa_lt (x : Binary64) : x.mantissa < 2 * block := by
  have hmod : x.place % block < block := Nat.mod_lt _ (by decide)
  unfold mantissa
  split <;> omega

theorem magnitude_pos (h : x.isZero = false) : 0 < x.magnitude := by
  have hmantissa : (0 : ℚ) < x.mantissa := by exact_mod_cast mantissa_pos h
  unfold magnitude
  positivity

/-- How far the neighbourhood reaches down, in quarters of a unit of the mantissa. -/
def below (x : Binary64) : Nat := if x.mantissa = block ∧ block < x.place then 1 else 2

def quarter (x : Binary64) : ℚ := 2 ^ (x.exponent - 2)

theorem quarter_pos (x : Binary64) : 0 < x.quarter := zpow_pos (by norm_num) _

theorem magnitude_eq_quarters (x : Binary64) : x.magnitude = 4 * x.mantissa * x.quarter := by
  have hsplit : (2 : ℚ) ^ x.exponent = 2 ^ (x.exponent - 2) * 2 ^ (2 : Int) := by
    rw [← two_zpow_add, sub_add_cancel]
  rw [magnitude, quarter, hsplit]
  ring

theorem neighbourhood_den_pos (x : Binary64) : 0 < x.neighbourhood.den :=
  scale_den_pos 1 Nat.one_pos _

/-- The ends of a neighbourhood are whole numbers of quarters. -/
theorem scale_quarters (x : Binary64) (n : Nat) :
    ((scale n 1 (2 - x.exponent)).1 : ℚ) = n * x.quarter * x.neighbourhood.den := by
  have hden : (0 : ℚ) < x.neighbourhood.den := by exact_mod_cast x.neighbourhood_den_pos
  have hsame : (scale n 1 (2 - x.exponent)).2 = x.neighbourhood.den := by
    simp only [neighbourhood, scale]
    split <;> rfl
  have hratio := scale_ratio n 1 (2 - x.exponent)
  rw [hsame, Nat.cast_one, div_one, neg_sub, div_eq_iff hden.ne'] at hratio
  exact hratio

theorem neighbourhood_center (x : Binary64) : x.neighbourhood.center = x.magnitude := by
  have hden : (0 : ℚ) < x.neighbourhood.den := by exact_mod_cast x.neighbourhood_den_pos
  rw [Neighbourhood.center, div_eq_iff hden.ne', magnitude_eq_quarters]
  refine (x.scale_quarters (4 * x.mantissa)).trans ?_
  push_cast
  rfl

theorem neighbourhood_holds : x.neighbourhood.Holds r ↔
    if x.mantissa % 2 = 0 then
      ((4 * x.mantissa - x.below : ℕ) : ℚ) * x.quarter ≤ r ∧ r ≤ (4 * x.mantissa + 2) * x.quarter
    else ((4 * x.mantissa - x.below : ℕ) : ℚ) * x.quarter < r ∧ r < (4 * x.mantissa + 2) * x.quarter := by
  have hden : (0 : ℚ) < x.neighbourhood.den := by exact_mod_cast x.neighbourhood_den_pos
  have hlow : (x.neighbourhood.low : ℚ) =
      ((4 * x.mantissa - x.below : ℕ) : ℚ) * x.quarter * x.neighbourhood.den := x.scale_quarters _
  have hhigh : (x.neighbourhood.high : ℚ) =
      (4 * x.mantissa + 2) * x.quarter * x.neighbourhood.den := by
    refine (x.scale_quarters (4 * x.mantissa + 2)).trans ?_
    push_cast
    rfl
  have hclosed : x.neighbourhood.closed = decide (x.mantissa % 2 = 0) := rfl
  rw [Neighbourhood.Holds, hlow, hhigh, hclosed]
  simp only [decide_eq_true_eq, mul_le_mul_iff_left₀ hden, mul_lt_mul_iff_left₀ hden]

/-- What lies properly between the ends belongs to a neighbourhood, closed or not. -/
theorem neighbourhood_holds_of_lt (hlow : ((4 * x.mantissa - x.below : ℕ) : ℚ) * x.quarter < r)
    (hhigh : r < (4 * x.mantissa + 2) * x.quarter) : x.neighbourhood.Holds r := by
  rw [neighbourhood_holds]
  split
  · exact ⟨hlow.le, hhigh.le⟩
  · exact ⟨hlow, hhigh⟩

theorem Neighbourhood.Holds.bounds (h : x.neighbourhood.Holds r) :
    ((4 * x.mantissa - x.below : ℕ) : ℚ) * x.quarter ≤ r ∧ r ≤ (4 * x.mantissa + 2) * x.quarter := by
  rw [neighbourhood_holds] at h
  split at h
  · exact h
  · exact ⟨h.1.le, h.2.le⟩

theorem below_le (x : Binary64) : 0 < x.below ∧ x.below ≤ 2 := by
  unfold below
  split <;> omega

theorem magnitude_holds (h : x.isZero = false) : x.neighbourhood.Holds x.magnitude := by
  have hmantissa := mantissa_pos h
  have hbelow := x.below_le
  rw [magnitude_eq_quarters]
  refine neighbourhood_holds_of_lt ?_ ?_
  · refine mul_lt_mul_of_pos_right ?_ x.quarter_pos
    exact_mod_cast (by omega : 4 * x.mantissa - x.below < 4 * x.mantissa)
  · exact mul_lt_mul_of_pos_right (by linarith) x.quarter_pos

theorem Neighbourhood.Holds.pos (hx : x.isZero = false) (h : x.neighbourhood.Holds r) : 0 < r := by
  have hmantissa := mantissa_pos hx
  have hbelow := x.below_le
  refine lt_of_lt_of_le (mul_pos ?_ x.quarter_pos) h.bounds.1
  exact_mod_cast (by omega : 0 < 4 * x.mantissa - x.below)

end Numbers

section Search

variable {x : Binary64}

theorem exists_multiple {low high step : ℚ} (hlow : 0 ≤ low) (hstep : 0 < step) (h : low + step < high) :
    ∃ q : ℕ, low < q * step ∧ q * step < high := by
  have hfloor : (⌊low / step⌋₊ : ℚ) ≤ low / step := Nat.floor_le (by positivity)
  have hnext : low / step < ⌊low / step⌋₊ + 1 := Nat.lt_floor_add_one _
  rw [le_div_iff₀ hstep] at hfloor
  rw [div_lt_iff₀ hstep] at hnext
  refine ⟨⌊low / step⌋₊ + 1, ?_, ?_⟩ <;> push_cast <;> linarith

theorem exists_seventeen_digits (h : x.isZero = false) :
    ∃ q : ℕ, x.neighbourhood.Holds (q * 10 ^ (Int.log 10 x.magnitude - 16)) := by
  have hquarter := x.quarter_pos
  have hmantissa := mantissa_pos h
  have hbelow := x.below_le
  have hlt : (x.mantissa : ℚ) < 2 * 2 ^ 52 := by exact_mod_cast x.mantissa_lt
  have hstep : (10 : ℚ) ^ (Int.log 10 x.magnitude - 16) * 10 ^ 16 ≤ 4 * x.mantissa * x.quarter := by
    have hlog := Int.zpow_log_le_self (b := 10) (by decide) (magnitude_pos h)
    rw [← magnitude_eq_quarters, mul_comm, ten_pow_mul_zpow]
    simpa using hlog
  obtain ⟨q, hlow, hhigh⟩ : ∃ q : ℕ,
      ((4 * x.mantissa - x.below : ℕ) : ℚ) * x.quarter < q * 10 ^ (Int.log 10 x.magnitude - 16) ∧
        q * (10 : ℚ) ^ (Int.log 10 x.magnitude - 16) < (4 * x.mantissa + 2) * x.quarter := by
    refine exists_multiple (by positivity) (by positivity) ?_
    rw [Nat.cast_sub (by omega)]
    push_cast
    by_cases hpower : x.mantissa = block ∧ block < x.place
    · have hone : x.below = 1 := if_pos hpower
      have hblock : (x.mantissa : ℚ) = 2 ^ 52 := by exact_mod_cast hpower.1
      rw [hblock] at hstep
      rw [hone, hblock]
      push_cast
      nlinarith
    · have htwo : x.below = 2 := if_neg hpower
      rw [htwo]
      push_cast
      nlinarith
  exact ⟨q, neighbourhood_holds_of_lt hlow hhigh⟩

theorem findSome?_range {α : Type} {f : Nat → Option α} {n : Nat} {b : α}
    (h : (List.range n).findSome? f = some b) : ∃ k < n, f k = some b ∧ ∀ m < k, f m = none := by
  induction n with
  | zero => cases h
  | succ n ih =>
    rw [List.range_succ, List.findSome?_append] at h
    cases hr : (List.range n).findSome? f with
    | some c =>
      rw [hr, Option.some_or] at h
      obtain ⟨k, hk, hfirst⟩ := ih (hr.trans h)
      exact ⟨k, Nat.lt_succ_of_lt hk, hfirst⟩
    | none =>
      rw [hr, Option.none_or] at h
      refine ⟨n, Nat.lt_succ_self n, by simpa using h, fun m hm => ?_⟩
      exact List.findSome?_eq_none_iff.mp hr m (List.mem_range.mpr hm)

theorem Decimal.trim_value (fuel : Nat) (d : Decimal) : (d.trim fuel).value = d.value := by
  induction fuel generalizing d with
  | zero => rfl
  | succ fuel ih =>
    unfold Decimal.trim
    split
    · rename_i h
      have hdigits : (d.digits : ℚ) = (d.digits / 10 : ℕ) * 10 := by
        exact_mod_cast (Nat.div_mul_cancel (Nat.dvd_of_mod_eq_zero h.2)).symm
      rw [ih, Decimal.value, Decimal.value, hdigits, zpow_add_one₀ (by norm_num)]
      ring
    · rfl

/-- The whole number, if any, that is found for a number with so many digits after the first. -/
def found? (x : Binary64) (n : Nat) : Option Nat :=
  (x.neighbourhood.inUnits (Int.log 10 x.magnitude - n)).whole?

theorem isSome_found? (hx : x.isZero = false) {n q : Nat}
    (h : x.neighbourhood.Holds (q * 10 ^ (Int.log 10 x.magnitude - n))) : (x.found? n).isSome := by
  refine Neighbourhood.isSome_whole? ?_ (Neighbourhood.inUnits_holds.mpr h)
  have hunit : (10 : ℚ) ^ (Int.log 10 x.magnitude - n) ≠ 0 := by positivity
  rw [Neighbourhood.inUnits_holds, Neighbourhood.inUnits_center, neighbourhood_center,
    div_mul_cancel₀ _ hunit]
  exact magnitude_holds hx

/-- The shortest decimal comes of the first number of digits with which there is one. -/
theorem shortest_eq (hx : x.isZero = false) :
    ∃ n q, x.found? n = some q ∧ (∀ m < n, x.found? m = none) ∧
      x.shortest = Decimal.trim 17 ⟨q, Int.log 10 x.magnitude - n⟩ := by
  have hden := x.neighbourhood_den_pos
  have hvalue : 0 < x.neighbourhood.value := by
    have hcenter := magnitude_pos hx
    rw [← neighbourhood_center, Neighbourhood.center] at hcenter
    by_contra h
    rw [Nat.eq_zero_of_not_pos h] at hcenter
    simp at hcenter
  have htop : floorLog10 x.neighbourhood.value x.neighbourhood.den = Int.log 10 x.magnitude := by
    rw [floorLog10_eq hvalue hden, ← neighbourhood_center, Neighbourhood.center]
  obtain ⟨q, hq⟩ := exists_seventeen_digits hx
  have hfound : ((List.range 17).findSome? fun (n : Nat) =>
      (x.found? n).map fun q => (⟨q, Int.log 10 x.magnitude - n⟩ : Decimal)).isSome := by
    rw [List.findSome?_isSome_iff]
    refine ⟨16, by decide, ?_⟩
    rw [Option.isSome_map]
    exact isSome_found? hx hq
  obtain ⟨d, hd⟩ := Option.isSome_iff_exists.mp hfound
  obtain ⟨n, -, hn, hfirst⟩ := findSome?_range hd
  obtain ⟨p, hp, rfl⟩ := Option.map_eq_some_iff.mp hn
  refine ⟨n, p, hp, fun m hm => Option.map_eq_none_iff.mp (hfirst m hm), ?_⟩
  rw [shortest, htop]
  exact congrArg (fun f : Option Decimal => (f.getD ⟨0, 0⟩).trim 17) hd

/-- The shortest decimal of a number is nearer to it than to its neighbours. -/
theorem shortest_holds (hx : x.isZero = false) : x.neighbourhood.Holds x.shortest.value := by
  obtain ⟨n, q, hq, -, hshortest⟩ := shortest_eq hx
  rw [hshortest, Decimal.trim_value]
  exact Neighbourhood.inUnits_holds.mp (Neighbourhood.whole?_eq_some hq).1

end Search

section FifteenDigits

variable {x : Binary64} {m m' : Nat} {e e' : Int}

/-- A decimal of at most fifteen digits is a multiple of the fifteenth place after its first. -/
theorem exists_multiple_of_digits {t : Int} (hm : m ≤ 10 ^ 15) (h : (10 : ℚ) ^ t ≤ m * 10 ^ e) :
    ∃ a : ℕ, (m : ℚ) * 10 ^ e = a * 10 ^ (t - 14) := by
  by_cases he : t - 14 ≤ e
  · refine ⟨m * 10 ^ (e - (t - 14)).toNat, ?_⟩
    push_cast
    rw [mul_assoc, ten_pow_mul_zpow, Int.toNat_of_nonneg (by omega)]
    congr 2
    ring
  · have hmq : (m : ℚ) ≤ 10 ^ 15 := by exact_mod_cast hm
    have hle : (m : ℚ) * 10 ^ e ≤ 10 ^ t := by
      calc (m : ℚ) * 10 ^ e
        _ ≤ 10 ^ 15 * 10 ^ e := by gcongr
        _ = 10 ^ (15 + e) := ten_pow_mul_zpow 15 e
        _ ≤ 10 ^ t := zpow_le_zpow_right₀ (by norm_num) (by omega)
    refine ⟨10 ^ 14, ?_⟩
    rw [le_antisymm hle h, Nat.cast_pow, Nat.cast_ofNat, ten_pow_mul_zpow]
    congr 1
    push_cast
    ring

theorem add_step_le_of_lt {a b : ℕ} {step : ℚ} (hstep : 0 < step) (h : a * step < b * step) :
    a * step + step ≤ b * step := by
  have hlt : (a : ℚ) < b := lt_of_mul_lt_mul_right h hstep.le
  have hsucc : (a : ℚ) + 1 ≤ b := by exact_mod_cast hlt
  calc (a : ℚ) * step + step
    _ = (a + 1) * step := by ring
    _ ≤ b * step := by gcongr

/-- In the neighbourhood of a number that is not among the smallest, decimals of at most fifteen digits
are too far apart for two of them. -/
theorem Neighbourhood.Holds.le_of_digits (hnormal : block ≤ x.mantissa) (hm : m ≤ 10 ^ 15)
    (hm' : m' ≤ 10 ^ 15) (h : x.neighbourhood.Holds (m * 10 ^ e))
    (h' : x.neighbourhood.Holds (m' * 10 ^ e')) : (m' : ℚ) * 10 ^ e' ≤ m * 10 ^ e := by
  have hquarter := x.quarter_pos
  have hbelow := x.below_le
  have hblock : (2 : ℚ) ^ 52 ≤ x.mantissa := by exact_mod_cast hnormal
  obtain ⟨hlow, -⟩ := h.bounds
  obtain ⟨-, hhigh⟩ := h'.bounds
  have hbelowq : (x.below : ℚ) ≤ 2 := by exact_mod_cast hbelow.2
  have hsub : ((4 * x.mantissa - x.below : ℕ) : ℚ) = 4 * x.mantissa - x.below := by
    have hpos : 0 < block := by decide
    rw [Nat.cast_sub (by omega)]
    push_cast
    rfl
  rw [hsub] at hlow
  have hpos : (0 : ℚ) < m * 10 ^ e := lt_of_lt_of_le (mul_pos (by linarith) hquarter) hlow
  by_contra hlt
  rw [not_le] at hlt
  -- Both are multiples of one power of ten, so that they are at least that power apart.
  have hfirst := Int.zpow_log_le_self (b := 10) (by decide) hpos
  have hnext := Int.lt_zpow_succ_log_self (b := 10) (by decide) ((m : ℚ) * 10 ^ e)
  rw [Nat.cast_ofNat] at hfirst hnext
  generalize Int.log 10 ((m : ℚ) * 10 ^ e) = t at hfirst hnext
  obtain ⟨a, ha⟩ := exists_multiple_of_digits hm hfirst
  obtain ⟨a', ha'⟩ := exists_multiple_of_digits hm' (hfirst.trans hlt.le)
  have hstep : (0 : ℚ) < 10 ^ (t - 14) := by positivity
  have hapart : (m : ℚ) * 10 ^ e + 10 ^ (t - 14) ≤ m' * 10 ^ e' := by
    rw [ha, ha'] at hlt ⊢
    exact add_step_le_of_lt hstep hlt
  have hscale : (10 : ℚ) ^ (t + 1) = 10 ^ 15 * 10 ^ (t - 14) := by
    rw [ten_pow_mul_zpow]
    congr 1
    push_cast
    ring
  rw [hscale] at hnext
  nlinarith

theorem found?_le {n q : Nat} (h : x.found? n = some q) : q ≤ 10 ^ (n + 1) := by
  obtain ⟨-, hq⟩ := Neighbourhood.whole?_eq_some h
  have hnext := Int.lt_zpow_succ_log_self (b := 10) (by decide) x.magnitude
  have hcenter : (x.neighbourhood.inUnits (Int.log 10 x.magnitude - n)).center < (10 ^ (n + 1) : ℕ) := by
    rw [Neighbourhood.inUnits_center, neighbourhood_center, div_lt_iff₀ (by positivity)]
    rw [Nat.cast_pow, Nat.cast_ofNat, ten_pow_mul_zpow]
    convert hnext using 2
    · norm_num
    · push_cast
      ring
  have hnonneg : 0 ≤ (x.neighbourhood.inUnits (Int.log 10 x.magnitude - n)).center :=
    div_nonneg (Nat.cast_nonneg _) (Nat.cast_nonneg _)
  have hfloor := (Nat.floor_lt hnonneg).mpr hcenter
  rw [Neighbourhood.center, Nat.floor_div_eq_div] at hfloor
  omega

/-- A decimal of at most fifteen digits is the shortest one of the number that it is nearest to. -/
theorem shortest_value_eq (hnormal : block ≤ x.mantissa) (hx : x.isZero = false) (hm : m ≤ 10 ^ 15)
    (h : x.neighbourhood.Holds (m * 10 ^ e)) : x.shortest.value = m * 10 ^ e := by
  have hlog := Int.zpow_log_le_self (b := 10) (by decide) (magnitude_pos hx)
  rw [Nat.cast_ofNat] at hlog
  have hsome : ∃ n ≤ 14, (x.found? n).isSome := by
    by_cases hr : (10 : ℚ) ^ Int.log 10 x.magnitude ≤ m * 10 ^ e
    · obtain ⟨a, ha⟩ := exists_multiple_of_digits hm hr
      rw [ha] at h
      exact ⟨14, le_refl 14, isSome_found? hx h⟩
    · -- The power of ten at the first digit lies between the decimal and the number.
      have hpower := h.between (magnitude_holds hx) (not_le.mp hr).le hlog
      refine ⟨0, Nat.zero_le 14, isSome_found? hx (q := 1) ?_⟩
      simpa using hpower
  obtain ⟨l, hl, hsome⟩ := hsome
  obtain ⟨n, q, hq, hfirst, hshortest⟩ := shortest_eq hx
  have hn : n ≤ l := by
    by_contra hlt
    rw [hfirst l (not_le.mp hlt)] at hsome
    cases hsome
  have hdigits : q ≤ 10 ^ 15 := (found?_le hq).trans (Nat.pow_le_pow_right (by decide) (by omega))
  have hholds := Neighbourhood.inUnits_holds.mp (Neighbourhood.whole?_eq_some hq).1
  rw [hshortest, Decimal.trim_value]
  exact le_antisymm (h.le_of_digits hnormal hm hdigits hholds) (hholds.le_of_digits hnormal hdigits hm h)

end FifteenDigits
end AnnotationReport.Binary64
