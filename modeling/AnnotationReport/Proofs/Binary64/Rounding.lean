import AnnotationReport.Proofs.Binary64.Shortest

/-! # Rounding

A ratio is rounded to a number in whose neighbourhood it lies, so that products and quotients are rounded
once. A whole number of at most 53 bits, times a power of two, is kept as it is.
-/
namespace AnnotationReport.Binary64

section Nearest

/-- A whole number nearest to a ratio, and the even one where two are. -/
structure Near (t : ℚ) (m : ℕ) : Prop where
  le_add : (m : ℚ) ≤ t + 1 / 2
  le : t ≤ m + 1 / 2
  odd : m % 2 = 1 → (m : ℚ) < t + 1 / 2 ∧ t < m + 1 / 2

theorem roundDiv_cases (num den : Nat) :
    (roundDiv num den = num / den ∧ 2 * (num % den) ≤ den ∧
        (roundDiv num den % 2 = 1 → 2 * (num % den) < den)) ∨
      (roundDiv num den = num / den + 1 ∧ den ≤ 2 * (num % den) ∧
        (roundDiv num den % 2 = 1 → den < 2 * (num % den))) := by
  unfold roundDiv
  dsimp only
  split_ifs with hless hmore
  · exact .inl ⟨rfl, hless.le, fun _ => hless⟩
  · exact .inr ⟨rfl, hmore.le, fun _ => hmore⟩
  · rcases Nat.mod_two_eq_zero_or_one (num / den) with h | h
    · exact .inl ⟨by omega, by omega, by omega⟩
    · exact .inr ⟨by omega, by omega, by omega⟩

theorem near_floor {q : ℕ} {p : ℚ} (hp : 0 ≤ p) (hhalf : p ≤ 1 / 2) (hodd : q % 2 = 1 → p < 1 / 2) :
    Near (q + p) q := by
  refine ⟨by linarith, by linarith, ?_⟩
  intro ho
  have hlt := hodd ho
  exact ⟨by linarith, by linarith⟩

theorem near_next {q : ℕ} {p : ℚ} (hp : p < 1) (hhalf : 1 / 2 ≤ p) (hodd : (q + 1) % 2 = 1 → 1 / 2 < p) :
    Near (q + p) (q + 1) := by
  constructor
  · push_cast
    linarith
  · push_cast
    linarith
  · intro ho
    have hlt := hodd ho
    push_cast
    exact ⟨by linarith, by linarith⟩

theorem near_roundDiv {num den : Nat} (hden : 0 < den) : Near ((num : ℚ) / den) (roundDiv num den) := by
  have hdenq : (0 : ℚ) < den := by exact_mod_cast hden
  have hratio : (num : ℚ) / den = (num / den : ℕ) + ((num % den : ℕ) : ℚ) / den := by
    have hdiv : (num : ℚ) = den * (num / den : ℕ) + (num % den : ℕ) := by
      exact_mod_cast (Nat.div_add_mod num den).symm
    rw [div_eq_iff hdenq.ne', add_mul, div_mul_cancel₀ _ hdenq.ne', mul_comm]
    exact hdiv
  have hone : ((num % den : ℕ) : ℚ) / den < 1 := by
    rw [div_lt_one hdenq]
    exact_mod_cast Nat.mod_lt num hden
  have hle : 2 * (num % den) ≤ den ↔ ((num % den : ℕ) : ℚ) / den ≤ 1 / 2 := by
    rw [div_le_div_iff₀ hdenq two_pos, one_mul, mul_comm]
    norm_cast
  have hge : den ≤ 2 * (num % den) ↔ 1 / 2 ≤ ((num % den : ℕ) : ℚ) / den := by
    rw [div_le_div_iff₀ two_pos hdenq, one_mul, mul_comm]
    norm_cast
  rw [hratio]
  rcases roundDiv_cases num den with ⟨heq, hhalf, hodd⟩ | ⟨heq, hhalf, hodd⟩
  · rw [heq] at hodd ⊢
    exact near_floor (by positivity) (hle.mp hhalf) fun ho => not_le.mp (mt hge.mpr (not_le.mpr (hodd ho)))
  · rw [heq] at hodd ⊢
    exact near_next hone (hge.mp hhalf) fun ho => not_le.mp (mt hle.mpr (not_le.mpr (hodd ho)))

theorem Near.eq {n m : ℕ} (h : Near n m) : m = n := by
  have hle : (m : ℚ) < n + 1 := by linarith [h.le_add]
  have hge : (n : ℚ) < m + 1 := by linarith [h.le]
  have hle' : m < n + 1 := by exact_mod_cast hle
  have hge' : n < m + 1 := by exact_mod_cast hge
  omega

/-- The lower end of what a whole number is nearest to, in quarters. -/
theorem Near.quarters {t : ℚ} {m : ℕ} (h : Near t m) (ht : 0 < t) :
    ((4 * m - 2 : ℕ) : ℚ) ≤ 4 * t ∧ (m % 2 = 1 → ((4 * m - 2 : ℕ) : ℚ) < 4 * t) := by
  have hle := h.le_add
  cases m with
  | zero =>
    rw [Nat.mul_zero, Nat.zero_sub, Nat.cast_zero]
    exact ⟨by linarith, by omega⟩
  | succ m =>
    rw [Nat.cast_sub (by omega)]
    push_cast at hle ⊢
    refine ⟨by linarith, fun hodd => ?_⟩
    have hlt := (h.odd hodd).1
    push_cast at hlt
    linarith

end Nearest

section Places

theorem floorLog2_eq {num den : Nat} (hnum : 0 < num) (hden : 0 < den) :
    floorLog2 num den = Int.log 2 ((num : ℚ) / den) := by
  have hdenq : (0 : ℚ) < den := by exact_mod_cast hden
  have hnumlow : (2 : ℚ) ^ num.log2 ≤ num := by exact_mod_cast Nat.log2_self_le hnum.ne'
  have hnumhigh : (num : ℚ) < 2 ^ (num.log2 + 1) := by exact_mod_cast Nat.lt_log2_self
  have hdenlow : (2 : ℚ) ^ den.log2 ≤ den := by exact_mod_cast Nat.log2_self_le hden.ne'
  have hdenhigh : (den : ℚ) < 2 ^ (den.log2 + 1) := by exact_mod_cast Nat.lt_log2_self
  have hpowers : ∀ k l : ℕ, (2 : ℚ) ^ ((k : Int) - (l : Int)) = 2 ^ k / 2 ^ l := by
    intro k l
    rw [zpow_sub₀ (by norm_num), zpow_natCast, zpow_natCast]
  have hlow : (2 : ℚ) ^ ((num.log2 : Int) - den.log2 - 1) ≤ (num : ℚ) / den := by
    rw [show (num.log2 : Int) - den.log2 - 1 = num.log2 - (den.log2 + 1 : ℕ) by push_cast; ring, hpowers]
    gcongr
  have hhigh : (num : ℚ) / den < 2 ^ ((num.log2 : Int) - den.log2 + 1) := by
    rw [show (num.log2 : Int) - den.log2 + 1 = (num.log2 + 1 : ℕ) - den.log2 by push_cast; ring, hpowers]
    gcongr
  unfold floorLog2
  dsimp only
  generalize (num.log2 : Int) - den.log2 = guess at hlow hhigh
  have hscaled := scale_ratio num den guess
  have hpos : (0 : ℚ) < (scale num den guess).2 := by exact_mod_cast scale_den_pos num hden guess
  have hle : (scale num den guess).2 ≤ (scale num den guess).1 ↔ (2 : ℚ) ^ guess ≤ (num : ℚ) / den := by
    rw [zpow_neg, ← div_eq_mul_inv, div_eq_div_iff hpos.ne' (by positivity)] at hscaled
    rw [← mul_le_mul_iff_left₀ hpos, ← hscaled, mul_comm, mul_le_mul_iff_left₀ (by positivity)]
    exact_mod_cast Iff.rfl
  split
  · rename_i h
    exact (log_eq (by decide) (by exact_mod_cast hle.mp h) (by exact_mod_cast hhigh)).symm
  · rename_i h
    refine (log_eq (by decide) (by exact_mod_cast hlow) ?_).symm
    rw [sub_add_cancel]
    exact_mod_cast not_le.mp (mt hle.mpr h)

variable {x : Binary64} {e : Int} {m : Nat}

theorem mantissa_of_place (hplace : x.place = (e + 1074).toNat * block + m) (he : -1074 ≤ e)
    (hm : m < 2 * block) (hlow : e = -1074 ∨ block ≤ m) : x.mantissa = m ∧ x.exponent = e := by
  have hpos : 0 < block := by decide
  unfold mantissa exponent
  by_cases hsmall : m < block
  · obtain rfl := hlow.resolve_right (by omega)
    simp only [hplace, Int.add_left_neg, Int.toNat_zero, Nat.zero_mul, Nat.zero_add, hsmall, ↓reduceIte,
      and_self]
  · obtain ⟨k, rfl⟩ : ∃ k : ℕ, e = k - 1074 := ⟨(e + 1074).toNat, by omega⟩
    have hk : (k - 1074 + 1074 : Int).toNat = k := by omega
    have hsplit : x.place = block * (k + 1) + (m - block) := by
      rw [hplace, hk, Nat.mul_add, Nat.mul_comm, Nat.mul_one]
      omega
    have hge : ¬x.place < block := by
      rw [hsplit, Nat.mul_add, Nat.mul_one]
      omega
    have hdiv : x.place / block = k + 1 := by
      rw [hsplit, Nat.mul_add_div hpos, Nat.div_eq_of_lt (by omega), Nat.add_zero]
    have hmod : x.place % block = m - block := by
      rw [hsplit, Nat.mul_add_mod, Nat.mod_eq_of_lt (by omega)]
    rw [if_neg hge, if_neg hge, hmod]
    refine ⟨by omega, ?_⟩
    have hcast : (x.place : Int) / (block : Int) = k + 1 := by exact_mod_cast hdiv
    rw [hcast]
    ring

/-- Rounding up to a power of two leads to the next exponent. -/
theorem mantissa_of_carry (hplace : x.place = (e + 1074).toNat * block + 2 * block) (he : -1074 ≤ e) :
    x.mantissa = block ∧ x.exponent = e + 1 := by
  have hpos : 0 < block := by decide
  refine mantissa_of_place ?_ (by omega) (by omega) (.inr (le_refl block))
  have hsucc : (e + 1 + 1074).toNat = (e + 1074).toNat + 1 := by omega
  rw [hplace, hsucc, Nat.add_mul]
  omega

end Places

section Ratios

variable {negative : Bool} {num den : Nat} {x : Binary64}

/-- The exponent at which a ratio is rounded to a whole number. -/
def rounding (r : ℚ) : Int := max (-1074) (Int.log 2 r - 52)

theorem nearestPlace_eq (hnum : 0 < num) (hden : 0 < den) :
    ∃ m, nearestPlace num den = (rounding ((num : ℚ) / den) + 1074).toNat * block + m ∧
      Near ((num : ℚ) / den * 2 ^ (-rounding ((num : ℚ) / den))) m := by
  unfold nearestPlace
  rw [if_neg hnum.ne', floorLog2_eq hnum hden]
  refine ⟨_, rfl, ?_⟩
  rw [← scale_ratio]
  exact near_roundDiv (scale_den_pos num hden _)

theorem place_of_ofRatio? (h : ofRatio? negative num den = some x) : x.place = nearestPlace num den := by
  unfold ofRatio? at h
  dsimp only at h
  split at h <;> cases h
  rfl

theorem rounding_bounds {r : ℚ} (hr : 0 < r) :
    r * 2 ^ (-rounding r) < 2 * block ∧ (rounding r = -1074 ∨ (block : ℚ) ≤ r * 2 ^ (-rounding r)) := by
  have hlow := Int.zpow_log_le_self (b := 2) (by decide) hr
  have hhigh := Int.lt_zpow_succ_log_self (b := 2) (by decide) r
  rw [Nat.cast_ofNat] at hlow hhigh
  have hblock : (block : ℚ) = 2 ^ (52 : Int) := by norm_num [block]
  have hpos : (0 : ℚ) < 2 ^ (-rounding r) := by positivity
  constructor
  · calc r * 2 ^ (-rounding r)
      _ < 2 ^ (Int.log 2 r + 1) * 2 ^ (-rounding r) := by gcongr
      _ = 2 ^ (Int.log 2 r + 1 + -rounding r) := (zpow_add₀ (by norm_num) _ _).symm
      _ ≤ 2 ^ (1 + 52 : Int) := zpow_le_zpow_right₀ (by norm_num) (by unfold rounding; omega)
      _ = 2 * block := by rw [zpow_add₀ (by norm_num), hblock, zpow_one]
  · rcases le_or_gt (Int.log 2 r - 52) (-1074) with hsmall | hlarge
    · exact .inl (max_eq_left hsmall)
    · have hrounding : rounding r = Int.log 2 r - 52 := max_eq_right hlarge.le
      refine .inr ?_
      calc (block : ℚ)
        _ = 2 ^ Int.log 2 r * 2 ^ (-rounding r) := by
          rw [← zpow_add₀ (by norm_num), hrounding, hblock]
          congr 1
          ring
        _ ≤ r * 2 ^ (-rounding r) := by gcongr

theorem Near.le_carry {r : ℚ} (hr : 0 < r) {m : ℕ} (h : Near (r * 2 ^ (-rounding r)) m) :
    m ≤ 2 * block := by
  obtain ⟨hhigh, -⟩ := rounding_bounds hr
  have hlt : (m : ℚ) < (2 * block + 1 : ℕ) := by push_cast; linarith [h.le_add]
  have hnat : m < 2 * block + 1 := by exact_mod_cast hlt
  omega

theorem exists_ofRatio? (negative : Bool) (hnum : 0 < num) (hden : 0 < den)
    (h : (num : ℚ) / den < 2 ^ (1023 : Int)) : ∃ x, ofRatio? negative num den = some x := by
  have hr : (0 : ℚ) < (num : ℚ) / den := by positivity
  have hlog : Int.log 2 ((num : ℚ) / den) < 1023 := by
    rw [← Int.lt_zpow_iff_log_lt (by decide) hr]
    exact_mod_cast h
  have hrounding : (rounding ((num : ℚ) / den) + 1074).toNat ≤ 2044 := by unfold rounding; omega
  obtain ⟨m, hm, hnear⟩ := nearestPlace_eq hnum hden
  have hcarry := hnear.le_carry hr
  have hplace : nearestPlace num den < places := by
    have hblocks := Nat.mul_le_mul_right block hrounding
    have hpos : 0 < block := by decide
    rw [hm]
    unfold places
    omega
  unfold ofRatio?
  exact ⟨_, dif_pos hplace⟩

/-- The mantissa and the exponent that a ratio is rounded to: those of the nearest whole number, unless
that is a power of two which needs the next exponent. -/
theorem ofRatio?_cases (hnum : 0 < num) (hden : 0 < den) (h : ofRatio? negative num den = some x) :
    ∃ m, Near ((num : ℚ) / den * 2 ^ (-rounding ((num : ℚ) / den))) m ∧
      ((x.mantissa = m ∧ x.exponent = rounding ((num : ℚ) / den) ∧
          (block < x.place → (block : ℚ) ≤ num / den * 2 ^ (-rounding ((num : ℚ) / den)))) ∨
        (m = 2 * block ∧ x.mantissa = block ∧ x.exponent = rounding ((num : ℚ) / den) + 1)) := by
  have hr : (0 : ℚ) < (num : ℚ) / den := by positivity
  obtain ⟨m, hplace, hnear⟩ := nearestPlace_eq hnum hden
  rw [← place_of_ofRatio? h] at hplace
  obtain ⟨-, hlow⟩ := rounding_bounds hr
  have hm := hnear.le_carry hr
  have hrounding : -1074 ≤ rounding ((num : ℚ) / den) := le_max_left _ _
  generalize rounding ((num : ℚ) / den) = e at *
  generalize (num : ℚ) / den * 2 ^ (-e) = t at *
  refine ⟨m, hnear, ?_⟩
  have hmlow : e = -1074 ∨ block ≤ m := by
    refine hlow.imp_right fun hge => ?_
    have hlt : (block : ℚ) < (m + 1 : ℕ) := by push_cast; linarith [hnear.le]
    have hnat : block < m + 1 := by exact_mod_cast hlt
    omega
  rcases Nat.lt_or_eq_of_le hm with hlt | heq
  · obtain ⟨hmantissa, hexponent⟩ := mantissa_of_place hplace hrounding hlt hmlow
    refine .inl ⟨hmantissa, hexponent, fun hbeyond => hlow.elim (fun he => ?_) id⟩
    -- At the least exponent the place is the whole number.
    have hplace' : x.place = m := by rw [hplace, he, Int.add_left_neg, Int.toNat_zero, Nat.zero_mul, Nat.zero_add]
    have hge : (block + 1 : ℚ) ≤ m := by exact_mod_cast hplace' ▸ hbeyond
    linarith [hnear.le_add]
  · exact .inr ⟨heq, mantissa_of_carry (by rw [hplace, heq]) hrounding⟩

theorem mul_zpow_cancel (r : ℚ) (e : Int) : r * 2 ^ (-e) * 2 ^ e = r := by
  rw [mul_assoc, ← two_zpow_add, neg_add_cancel, zpow_zero, mul_one]

/-- What a mantissa is nearest to lies in the neighbourhood of its number. Below a power of two the
neighbourhood is narrower, but what is rounded there lies above. -/
theorem holds_of_near {t : ℚ} {m : ℕ} {e : Int} (hnear : Near t m) (ht : 0 < t) (hmantissa : x.mantissa = m)
    (hexponent : x.exponent = e) (hbeyond : block < x.place → (block : ℚ) ≤ t) :
    x.neighbourhood.Holds (t * 2 ^ e) := by
  have hquarter := x.quarter_pos
  have hscale : t * 2 ^ e = 4 * t * x.quarter := by
    rw [quarter, hexponent, sub_eq_add_neg, two_zpow_add]
    ring
  have hlow : ((4 * m - x.below : ℕ) : ℚ) ≤ 4 * t ∧ (m % 2 = 1 → ((4 * m - x.below : ℕ) : ℚ) < 4 * t) := by
    by_cases hpower : x.mantissa = block ∧ block < x.place
    · have hblock : 0 < block ∧ block % 2 = 0 := by decide
      rw [hmantissa] at hpower
      obtain ⟨rfl, hplace⟩ := hpower
      have hge := hbeyond hplace
      have hbelow := x.below_le
      have hone : (1 : ℚ) ≤ x.below := by exact_mod_cast hbelow.1
      refine ⟨?_, fun hodd => by omega⟩
      rw [Nat.cast_sub (by omega)]
      push_cast
      linarith
    · have htwo : x.below = 2 := if_neg hpower
      rw [htwo]
      exact hnear.quarters ht
  rw [neighbourhood_holds, hscale, hmantissa, mul_le_mul_iff_left₀ hquarter, mul_le_mul_iff_left₀ hquarter,
    mul_lt_mul_iff_left₀ hquarter, mul_lt_mul_iff_left₀ hquarter]
  split
  · exact ⟨hlow.1, by linarith [hnear.le]⟩
  · rename_i hodd
    have hm : m % 2 = 1 := by omega
    exact ⟨hlow.2 hm, by linarith [(hnear.odd hm).2]⟩

theorem holds_of_carry {t : ℚ} {e : Int} (hnear : Near t (2 * block)) (hhigh : t < 2 * block)
    (hmantissa : x.mantissa = block) (hexponent : x.exponent = e + 1) :
    x.neighbourhood.Holds (t * 2 ^ e) := by
  have hquarter := x.quarter_pos
  have hblock : 0 < block ∧ block % 2 = 0 := by decide
  have hbelow := x.below_le
  have hone : (1 : ℚ) ≤ x.below := by exact_mod_cast hbelow.1
  have hscale : t * 2 ^ e = 2 * t * x.quarter := by
    rw [quarter, hexponent, show e + 1 - 2 = e + -1 by ring, two_zpow_add]
    ring
  have hlow := hnear.le_add
  push_cast at hlow
  rw [neighbourhood_holds, hscale, hmantissa, if_pos hblock.2, mul_le_mul_iff_left₀ hquarter,
    mul_le_mul_iff_left₀ hquarter, Nat.cast_sub (by omega)]
  push_cast
  exact ⟨by linarith, by linarith⟩

/-- A ratio lies in the neighbourhood of the number that it is rounded to. -/
theorem ofRatio?_holds (hnum : 0 < num) (hden : 0 < den) (h : ofRatio? negative num den = some x) :
    x.neighbourhood.Holds ((num : ℚ) / den) := by
  have hr : (0 : ℚ) < (num : ℚ) / den := by positivity
  obtain ⟨hhigh, -⟩ := rounding_bounds hr
  obtain ⟨m, hnear, hcases⟩ := ofRatio?_cases hnum hden h
  have hpos : 0 < (num : ℚ) / den * 2 ^ (-rounding ((num : ℚ) / den)) := by positivity
  rw [← mul_zpow_cancel ((num : ℚ) / den) (rounding ((num : ℚ) / den))]
  rcases hcases with ⟨hmantissa, hexponent, hbeyond⟩ | ⟨rfl, hmantissa, hexponent⟩
  · exact holds_of_near hnear hpos hmantissa hexponent hbeyond
  · exact holds_of_carry hnear hhigh hmantissa hexponent

/-- A whole number of 53 bits times a power of two is not changed by rounding. -/
theorem exists_magnitude_eq (negative : Bool) {a j : Nat} (ha : 0 < a) (hbits : a < 2 * block)
    (hj : j ≤ 970) : ∃ x, ofRatio? negative (a * 2 ^ j) 1 = some x ∧ x.magnitude = a * 2 ^ j := by
  have hnum : 0 < a * 2 ^ j := by positivity
  have hvalue : ((a * 2 ^ j : ℕ) : ℚ) / (1 : ℕ) = a * 2 ^ j := by push_cast; ring
  have hlt : (a : ℚ) < 2 ^ (53 : Int) := by exact_mod_cast hbits
  have hsmall : ((a * 2 ^ j : ℕ) : ℚ) / (1 : ℕ) < 2 ^ (1023 : Int) := by
    rw [hvalue]
    calc (a : ℚ) * 2 ^ j
      _ < 2 ^ (53 : Int) * 2 ^ j := by gcongr
      _ = 2 ^ (53 + j : Int) := by rw [two_zpow_add, zpow_natCast]
      _ ≤ 2 ^ (1023 : Int) := zpow_le_zpow_right₀ (by norm_num) (by omega)
  obtain ⟨x, h⟩ := exists_ofRatio? negative hnum Nat.one_pos hsmall
  refine ⟨x, h, ?_⟩
  obtain ⟨m, hnear, hcases⟩ := ofRatio?_cases hnum Nat.one_pos h
  rw [hvalue] at hnear hcases
  have hlog : Int.log 2 ((a : ℚ) * 2 ^ j) < 53 + j := by
    rw [← Int.lt_zpow_iff_log_lt (by decide) (by positivity), Nat.cast_ofNat, two_zpow_add, zpow_natCast]
    gcongr
  have hrounding : rounding ((a : ℚ) * 2 ^ j) ≤ j := by unfold rounding; omega
  generalize rounding ((a : ℚ) * 2 ^ j) = e at *
  obtain ⟨k, hk⟩ : ∃ k : ℕ, (j : Int) + -e = k := ⟨(j - e).toNat, by omega⟩
  have hwhole : (a : ℚ) * 2 ^ j * 2 ^ (-e) = (a * 2 ^ k : ℕ) := by
    rw [mul_assoc, ← zpow_natCast, ← two_zpow_add, hk]
    push_cast
    rw [zpow_natCast]
  have hback : ((a * 2 ^ k : ℕ) : ℚ) * 2 ^ e = a * 2 ^ j := by
    rw [← hwhole, mul_zpow_cancel]
  rw [hwhole] at hnear
  obtain rfl := hnear.eq
  rcases hcases with ⟨hmantissa, hexponent, -⟩ | ⟨hcarry, hmantissa, hexponent⟩
  · rw [magnitude, hmantissa, hexponent, hback]
  · rw [magnitude, hmantissa, hexponent, ← hback, hcarry, two_zpow_add]
    push_cast
    ring

/-- What is not among the smallest ratios is rounded to a number with a full mantissa. -/
theorem Neighbourhood.Holds.normal {r : ℚ} (h : x.neighbourhood.Holds r) (hr : (2 : ℚ) ^ (-1022 : Int) ≤ r) :
    block ≤ x.mantissa ∧ x.isZero = false := by
  have hpos : 0 < block := by decide
  have hmantissa : block ≤ x.mantissa := by
    by_contra hlt
    have hplace : x.place < block := by
      by_contra hge
      rw [mantissa, if_neg hge] at hlt
      omega
    have hexponent : x.exponent = -1074 := if_pos hplace
    have hle : (x.mantissa : ℚ) + 1 ≤ 2 ^ 52 := by exact_mod_cast not_le.mp hlt
    have hhigh := h.bounds.2
    have hquarter : (2 : ℚ) ^ (-1022 : Int) = 2 ^ 54 * x.quarter := by
      rw [quarter, hexponent, ← zpow_natCast, ← two_zpow_add]
      rfl
    have := x.quarter_pos
    nlinarith
  refine ⟨hmantissa, ?_⟩
  have hplace : x.place ≠ 0 := by
    intro hz
    rw [mantissa, if_pos (by omega), hz] at hmantissa
    omega
  simpa [isZero] using hplace

/-- Products are exact up to one rounding. -/
theorem mul?_eq {y : Binary64} (hx : x.isZero = false) (hy : y.isZero = false) :
    ∃ num den : ℕ, 0 < num ∧ 0 < den ∧ (num : ℚ) / den = x.magnitude * y.magnitude ∧
      x.mul? y = ofRatio? (x.negative != y.negative) num den := by
  have hnum := Nat.mul_pos (mantissa_pos hx) (mantissa_pos hy)
  refine ⟨_, _, scale_num_pos 1 hnum _, scale_den_pos _ Nat.one_pos _, ?_, rfl⟩
  rw [scale_ratio, neg_neg, two_zpow_add, magnitude, magnitude]
  push_cast
  ring

theorem div?_eq {y : Binary64} (hx : x.isZero = false) (hy : y.isZero = false) :
    ∃ num den : ℕ, 0 < num ∧ 0 < den ∧ (num : ℚ) / den = x.magnitude / y.magnitude ∧
      x.div? y = ofRatio? (x.negative != y.negative) num den := by
  refine ⟨_, _, scale_num_pos _ (mantissa_pos hx) _, scale_den_pos _ (mantissa_pos hy) _, ?_, rfl⟩
  rw [scale_ratio, neg_sub, zpow_sub₀ (by norm_num), magnitude, magnitude]
  ring

/-- What is not too large is rounded to a number in whose neighbourhood it lies. -/
theorem exists_holds {r : ℚ} {z : Option Binary64}
    (h : ∃ num den : ℕ, 0 < num ∧ 0 < den ∧ (num : ℚ) / den = r ∧ z = ofRatio? negative num den)
    (hr : r < 2 ^ (1023 : Int)) : ∃ y, z = some y ∧ y.neighbourhood.Holds r := by
  obtain ⟨num, den, hnum, hden, rfl, rfl⟩ := h
  obtain ⟨y, hy⟩ := exists_ofRatio? negative hnum hden hr
  exact ⟨y, hy, ofRatio?_holds hnum hden hy⟩

end Ratios
end AnnotationReport.Binary64
