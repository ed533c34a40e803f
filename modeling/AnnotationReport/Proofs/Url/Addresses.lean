import AnnotationReport.Url.Host
import AnnotationReport.Proofs.Text.Digits
import Mathlib.Tactic.IntervalCases

/-! # Addresses are read back

The text of an address is read as that address, and whatever is read as an address is one of 32 or
of 128 bits.
-/
namespace AnnotationReport.Url

namespace Ipv4

theorem ofNumbers?_lt {ns : List Nat} {a : Nat} (h : ofNumbers? ns = some a) : a < 4294967296 := by
  unfold ofNumbers? at h
  split at h
  · cases h
  · rename_i last _
    dsimp only at h
    split at h
    · rename_i hbounds
      obtain rfl := Option.some.inj h
      obtain ⟨hall, hlength, hlast⟩ := hbounds
      have hbytes : Text.ofDigits 256 ns.dropLast < 256 ^ ns.dropLast.length :=
        Text.ofDigits_lt fun d hd => by simpa using List.all_eq_true.mp hall d hd
      generalize Text.ofDigits 256 ns.dropLast = high at *
      generalize ns.dropLast.length = k at *
      interval_cases k <;> simp at hbytes hlast ⊢ <;> omega
    · cases h

theorem ofText?_lt {text : List Char} {a : Nat} (h : ofText? text = some a) : a < 4294967296 := by
  obtain ⟨ns, -, hns⟩ := Option.bind_eq_some_iff.mp h
  exact ofNumbers?_lt hns

theorem part?_decimal {n : Nat} (h : n < 256) : part? (Text.decimal n) = some n := by
  have hall : ∀ i : Fin 256, part? (Text.decimal i) = some i.val := by decide +kernel
  exact hall ⟨n, h⟩

def bytes (a : Nat) : List Nat := [a / 16777216, a / 65536 % 256, a / 256 % 256, a % 256]

theorem isDigit_decimal {n : Nat} {c : Char} (h : c ∈ Text.decimal n) : c.isDigit :=
  Nat.isDigit_of_mem_toDigits (by decide) (by decide) h

theorem parts_text (a : Nat) : parts (text a) = (bytes a).map Text.decimal := by
  have hdot : ∀ l ∈ (bytes a).map Text.decimal, '.' ∉ l := by
    intro l hl
    obtain ⟨n, -, rfl⟩ := List.mem_map.mp hl
    intro hm
    exact absurd (isDigit_decimal hm) (by decide)
  have hsplit : (text a).splitOn '.' = (bytes a).map Text.decimal :=
    List.splitOn_intercalate '.' hdot (List.cons_ne_nil _ _)
  have hlast : ((bytes a).map Text.decimal).getLast? = some (Text.decimal (a % 256)) := rfl
  have hne : Text.decimal (a % 256) ≠ [] := Nat.toDigits_ne_nil
  rw [parts, hsplit, hlast]
  simp [hne]

theorem ofNumbers?_bytes {a : Nat} (h : a < 4294967296) : ofNumbers? (bytes a) = some a := by
  have hlow : (bytes a).dropLast.all (· < 256) = true := by
    simp only [bytes, List.dropLast, List.all_cons, List.all_nil, Bool.and_true, Bool.and_eq_true,
      decide_eq_true_eq]
    omega
  have hbounds : (bytes a).dropLast.all (· < 256) = true ∧ (bytes a).dropLast.length < 4 ∧
      a % 256 < Nat.pow 256 (4 - (bytes a).dropLast.length) :=
    ⟨hlow, (by decide : 3 < 4), Nat.mod_lt a (by decide)⟩
  have hlast : (bytes a).getLast? = some (a % 256) := rfl
  have hsum : Text.ofDigits 256 (bytes a).dropLast * 256 + a % 256 = a := by
    simp only [bytes, List.dropLast, Text.ofDigits, List.foldl_cons, List.foldl_nil]
    omega
  simp only [ofNumbers?, hlast]
  rw [if_pos hbounds]
  exact congrArg some hsum

/-- The text of an IPv4 address is read as that address. -/
theorem ofText?_text {a : Nat} (h : a < 4294967296) : ofText? (text a) = some a := by
  have hparts : ((bytes a).map Text.decimal).mapM part? = some (bytes a) := by
    have h1 := part?_decimal (show a / 16777216 < 256 by omega)
    have h2 := part?_decimal (Nat.mod_lt (a / 65536) (show 0 < 256 by decide))
    have h3 := part?_decimal (Nat.mod_lt (a / 256) (show 0 < 256 by decide))
    have h4 := part?_decimal (Nat.mod_lt a (show 0 < 256 by decide))
    simp [bytes, h1, h2, h3, h4]
  rw [ofText?, parts_text, hparts, Option.bind_some, ofNumbers?_bytes h]

theorem isNumeric_text (a : Nat) : isNumeric (text a) = true := by
  have hlast : ((bytes a).map Text.decimal).getLast? = some (Text.decimal (a % 256)) := rfl
  have hne : Text.decimal (a % 256) ≠ [] := Nat.toDigits_ne_nil
  have hdigits : (Text.decimal (a % 256)).all Char.isDigit :=
    List.all_eq_true.mpr fun _ hc => isDigit_decimal hc
  simp only [isNumeric, parts_text, hlast, hdigits, Bool.and_true, Bool.or_eq_true,
    Bool.not_eq_true', List.isEmpty_eq_false_iff]
  exact .inl hne

end Ipv4

namespace Ipv6

/-- Eight pieces of 16 bits. -/
def IsAddress (ps : List Nat) : Prop := ps.length = 8 ∧ ∀ p ∈ ps, p < 65536

section Bounds

variable {text : List Char} {fields : List (List Char)} {p : Nat} {ps : List Nat}

theorem piece?_lt (h : piece? text = some p) : p < 65536 := by
  unfold piece? at h
  split at h
  · cases h
  · rename_i hlength
    simp only [not_or, Nat.not_lt] at hlength
    exact Nat.lt_of_lt_of_le (Text.number?_lt h) (Nat.pow_le_pow_right (by decide) hlength.2)

theorem byte?_lt (h : byte? text = some p) : p < 256 := by
  unfold byte? at h
  split at h
  · cases h
  · simpa using (Option.filter_eq_some_iff.mp h).2

theorem dotted?_lt (h : dotted? text = some ps) : ∀ p ∈ ps, p < 65536 := by
  unfold dotted? at h
  split at h
  · rename_i a b c d hbytes
    obtain rfl := Option.some.inj h
    have hall : ∀ n ∈ [a, b, c, d], n < 256 := Text.forall_of_mapM hbytes fun _ _ => byte?_lt
    simp only [List.forall_mem_cons, List.not_mem_nil, false_implies, implies_true, and_true] at hall ⊢
    omega
  · cases h

theorem pieces?_lt (h : pieces? fields = some ps) : ∀ p ∈ ps, p < 65536 := by
  induction fields generalizing ps with
  | nil =>
    obtain rfl := Option.some.inj h
    simp
  | cons field r ih =>
    cases r with
    | nil =>
      rw [pieces?] at h
      split at h
      · exact dotted?_lt h
      · obtain ⟨p, hp, rfl⟩ := Option.map_eq_some_iff.mp h
        exact List.forall_mem_singleton.mpr (piece?_lt hp)
    | cons _ _ =>
      rw [pieces?] at h
      · obtain ⟨p, hp, hr⟩ := Option.bind_eq_some_iff.mp h
        obtain ⟨qs, hqs, rfl⟩ := Option.map_eq_some_iff.mp hr
        exact List.forall_mem_cons.mpr ⟨piece?_lt hp, ih hqs⟩
      · simp

theorem isAddress_of_ofText? (h : ofText? text = some ps) : IsAddress ps := by
  unfold ofText? at h
  split at h
  · obtain ⟨hpieces, hlength⟩ := Option.filter_eq_some_iff.mp h
    exact ⟨by simpa using hlength, pieces?_lt hpieces⟩
  · obtain ⟨left, hleft, h⟩ := Option.bind_eq_some_iff.mp h
    obtain ⟨right, hright, h⟩ := Option.bind_eq_some_iff.mp h
    split at h
    · obtain rfl := Option.some.inj h
      have hpieces : ∀ p ∈ left, p < 65536 := Text.forall_of_mapM hleft fun _ _ => piece?_lt
      refine ⟨?_, ?_⟩
      · simp only [List.length_append, List.length_replicate]
        omega
      · simp only [List.forall_mem_append, List.forall_mem_replicate]
        exact ⟨⟨hpieces, .inr (by decide)⟩, pieces?_lt hright⟩
    · cases h

end Bounds

section Colons

variable {p : Nat} {ps : List Nat}

theorem piece?_hexadecimal (h : p < 65536) : piece? (Text.hexadecimal p) = some p := by
  have hne : Text.hexadecimal p ≠ [] := Nat.toDigits_ne_nil
  have hlength : (Text.hexadecimal p).length ≤ 4 :=
    (Nat.length_toDigits_le_iff (by decide) (by decide)).mpr h
  rw [piece?, if_neg, Text.hexadecimal, Text.number?_toDigits (by decide) (by decide)]
  simp [hne, hlength]

/-- No piece has a colon in it, nor any other mark. -/
theorem hexValue?_of_mem {c : Char} (h : c ∈ Text.hexadecimal p) : (Text.hexValue? c).isSome :=
  Text.isSome_of_number? (Text.number?_toDigits (by decide) (by decide) p) c h

theorem notMem_hexadecimal {c : Char} (hc : Text.hexValue? c = none) (p : Nat) :
    c ∉ Text.hexadecimal p := by
  intro hm
  have hsome := hexValue?_of_mem hm
  rw [hc] at hsome
  cases hsome

theorem colons_cons_cons (p q : Nat) (ps : List Nat) :
    colons (p :: q :: ps) = Text.hexadecimal p ++ ':' :: colons (q :: ps) := by
  simp [colons, List.intercalate_cons_cons]

theorem colons_singleton (p : Nat) : colons [p] = Text.hexadecimal p := by
  simp [colons]

theorem exists_colons_cons (p : Nat) (ps : List Nat) : ∃ c r, c ≠ ':' ∧ colons (p :: ps) = c :: r := by
  obtain ⟨c, r, hcr⟩ := List.exists_cons_of_ne_nil (show Text.hexadecimal p ≠ [] from Nat.toDigits_ne_nil)
  have hc : c ≠ ':' := by
    rintro rfl
    exact notMem_hexadecimal rfl p (hcr ▸ List.mem_cons_self)
  cases ps with
  | nil => exact ⟨c, r, hc, by rw [colons_singleton, hcr]⟩
  | cons q ps => exact ⟨c, r ++ ':' :: colons (q :: ps), hc, by rw [colons_cons_cons, hcr, List.cons_append]⟩

theorem fields_colons (ps : List Nat) : fields (colons ps) = ps.map Text.hexadecimal := by
  cases ps with
  | nil => rfl
  | cons p ps =>
    obtain ⟨c, r, -, hcr⟩ := exists_colons_cons p ps
    have hcolon : ∀ l ∈ (p :: ps).map Text.hexadecimal, ':' ∉ l := by
      intro l hl
      obtain ⟨q, -, rfl⟩ := List.mem_map.mp hl
      exact notMem_hexadecimal rfl q
    have hsplit : (colons (p :: ps)).splitOn ':' = (p :: ps).map Text.hexadecimal :=
      List.splitOn_intercalate ':' hcolon (List.cons_ne_nil _ _)
    rw [fields, hsplit, hcr]
    rfl

theorem mapM_piece? (h : ∀ p ∈ ps, p < 65536) : (ps.map Text.hexadecimal).mapM piece? = some ps := by
  induction ps with
  | nil => rfl
  | cons p ps ih =>
    obtain ⟨hp, hps⟩ := List.forall_mem_cons.mp h
    simp [piece?_hexadecimal hp, ih hps]

theorem pieces?_hexadecimal (h : ∀ p ∈ ps, p < 65536) : pieces? (ps.map Text.hexadecimal) = some ps := by
  induction ps with
  | nil => rfl
  | cons p ps ih =>
    obtain ⟨hp, hps⟩ := List.forall_mem_cons.mp h
    cases ps with
    | nil =>
      have hdot : '.' ∉ Text.hexadecimal p := notMem_hexadecimal rfl p
      simp [pieces?, hdot, piece?_hexadecimal hp]
    | cons q ps =>
      have hr := ih hps
      rw [List.map_cons] at hr
      rw [List.map_cons, List.map_cons, pieces?, hr, piece?_hexadecimal hp]
      · rfl
      · simp

theorem cut?_cons {c : Char} (hc : c ≠ ':') (r : List Char) :
    cut? (c :: r) = (cut? r).map fun (before, after) => (c :: before, after) := by
  cases r with
  | nil => rfl
  | cons d r => simp [cut?, hc]

theorem cut?_colon {c : Char} (hc : c ≠ ':') (r : List Char) :
    cut? (':' :: c :: r) = (cut? (c :: r)).map fun (before, after) => (':' :: before, after) := by
  simp [cut?, hc]

theorem cut?_append {text : List Char} (h : ':' ∉ text) (r : List Char) :
    cut? (text ++ r) = (cut? r).map fun (before, after) => (text ++ before, after) := by
  induction text with
  | nil => simp
  | cons c t ih =>
    simp only [List.mem_cons, not_or] at h
    rw [List.cons_append, cut?_cons (Ne.symm h.1), ih h.2, Option.map_map]
    rfl

/-- The colons between pieces stand alone, so the text is not cut among them. -/
theorem cut?_colons (ps : List Nat) (r : List Char) :
    cut? (colons ps ++ r) = (cut? r).map fun (before, after) => (colons ps ++ before, after) := by
  induction ps with
  | nil => simp [colons]
  | cons p ps ih =>
    cases ps with
    | nil => rw [colons_singleton, cut?_append (notMem_hexadecimal rfl p)]
    | cons q ps =>
      obtain ⟨c, t, hc, hct⟩ := exists_colons_cons q ps
      rw [colons_cons_cons, List.append_assoc, cut?_append (notMem_hexadecimal rfl p)]
      rw [hct] at ih ⊢
      rw [List.cons_append, List.cons_append, cut?_colon hc, ← List.cons_append, ih, Option.map_map,
        Option.map_map]
      simp [Function.comp_def]

end Colons

section Zeros

variable {ps : List Nat} {i k : Nat}

theorem eq_zeros_append (h : (zeroRuns ps).headD 0 = k) : ps = List.replicate k 0 ++ ps.drop k := by
  induction ps generalizing k with
  | nil =>
    obtain rfl : k = 0 := h.symm
    rfl
  | cons p r ih =>
    rw [zeroRuns, List.headD_cons] at h
    split at h
    · rename_i hp
      obtain rfl := h
      rw [List.replicate_succ, List.cons_append, List.drop_succ_cons, ← ih rfl, hp]
    · obtain rfl := h
      rfl

theorem drop_eq_zeros_append (h : (zeroRuns ps)[i]? = some k) :
    ps.drop i = List.replicate k 0 ++ ps.drop (i + k) := by
  induction ps generalizing i with
  | nil => simp [zeroRuns] at h
  | cons p r ih =>
    cases i with
    | zero =>
      rw [Nat.zero_add, List.drop_zero]
      refine eq_zeros_append ?_
      rw [zeroRuns] at h ⊢
      exact Option.some.inj h
    | succ i =>
      rw [zeroRuns, List.getElem?_cons_succ] at h
      rw [Nat.succ_add, List.drop_succ_cons, List.drop_succ_cons]
      exact ih h

theorem foldl_max_mem (runs : List Nat) (a : Nat) : runs.foldl max a = a ∨ runs.foldl max a ∈ runs := by
  induction runs generalizing a with
  | nil => exact .inl rfl
  | cons n r ih =>
    rw [List.foldl_cons]
    rcases ih (max a n) with h | h
    · rw [h]
      rcases Nat.le_total a n with hle | hle
      · rw [Nat.max_eq_right hle]
        exact .inr List.mem_cons_self
      · exact .inl (Nat.max_eq_left hle)
    · exact .inr (List.mem_cons_of_mem _ h)

theorem length_zeroRuns (ps : List Nat) : (zeroRuns ps).length = ps.length := by
  induction ps with
  | nil => rfl
  | cons p r ih => simp [zeroRuns, ih]

end Zeros

/-- The text of an IPv6 address is read as that address. -/
theorem ofText?_text {ps : List Nat} (h : IsAddress ps) : ofText? (text ps) = some ps := by
  obtain ⟨hlength, hpieces⟩ := h
  unfold text
  dsimp only
  generalize hk : (zeroRuns ps).foldl max 0 = k
  split
  · have hcut : cut? (colons ps) = none := by
      simpa [cut?] using cut?_colons ps []
    rw [ofText?, hcut]
    simp only [fields_colons, pieces?_hexadecimal hpieces, Option.filter_some, hlength]
    rfl
  · rename_i hlong
    -- The longest run stands where it is looked for, so the pieces are those before, zeros, and those after.
    have hmem : k ∈ zeroRuns ps := by
      rcases foldl_max_mem (zeroRuns ps) 0 with hzero | hmem
      · omega
      · exact hk ▸ hmem
    have hstart := List.idxOf_lt_length_iff.mpr hmem
    have hrun : (zeroRuns ps)[(zeroRuns ps).idxOf k]? = some k := by
      rw [List.getElem?_eq_getElem hstart, List.getElem_idxOf]
    rw [length_zeroRuns] at hstart
    generalize (zeroRuns ps).idxOf k = i at *
    have hdrop := drop_eq_zeros_append hrun
    have hsum : i + k ≤ ps.length := by
      have := congrArg List.length hdrop
      simp only [List.length_drop, List.length_append, List.length_replicate] at this
      omega
    have hbefore : ∀ p ∈ ps.take i, p < 65536 := fun p hp => hpieces p (List.mem_of_mem_take hp)
    have hafter : ∀ p ∈ ps.drop (i + k), p < 65536 := fun p hp => hpieces p (List.mem_of_mem_drop hp)
    have hcut : cut? (colons (ps.take i) ++ [':', ':'] ++ colons (ps.drop (i + k))) =
        some (colons (ps.take i), colons (ps.drop (i + k))) := by
      rw [List.append_assoc, cut?_colons]
      simp [cut?]
    have hzeros : 8 - (ps.take i).length - (ps.drop (i + k)).length = k := by
      rw [List.length_take, List.length_drop]
      omega
    have hshort : (ps.take i).length + (ps.drop (i + k)).length < 8 := by
      rw [List.length_take, List.length_drop]
      omega
    rw [ofText?, hcut]
    simp only [fields_colons, mapM_piece? hbefore, pieces?_hexadecimal hafter, Option.bind_some]
    rw [if_pos hshort, hzeros, List.append_assoc, ← hdrop, List.take_append_drop]

end Ipv6

end AnnotationReport.Url
