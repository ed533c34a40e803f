import AnnotationReport.Text.Utf8
import Mathlib.Tactic.SplitIfs

/-! # Encoding is one to one

The bytes of a text are the bytes that make up the string, so different texts have different bytes. Read
in pieces, they give back the characters of the text and nothing malformed.
-/
namespace AnnotationReport.Text.Utf8

theorem ascii_of_isAlphanum {c : Char} (h : c.isAlphanum) : c.toNat < 0x80 := by
  have hbound : ∀ {d : Char}, d.toNat < 0x80 → c.val ≤ d.val → c.toNat < 0x80 := fun hd hle =>
    Nat.lt_of_le_of_lt hle hd
  rcases Bool.or_eq_true_iff.mp h with hletter | hdigit
  · rcases Bool.or_eq_true_iff.mp hletter with hupper | hlower
    · exact hbound (d := 'Z') (by decide) (of_decide_eq_true hupper).2
    · exact hbound (d := 'z') (by decide) (of_decide_eq_true (Bool.and_eq_true_iff.mp hlower).2)
  · exact hbound (d := '9') (by decide) (of_decide_eq_true (Bool.and_eq_true_iff.mp hdigit).2)

theorem toNat_cases (c : Char) : c.toNat < 0xD800 ∨ 0xDFFF < c.toNat ∧ c.toNat < 0x110000 := by
  have h := c.valid
  simp only [UInt32.isValidChar, Nat.isValidChar] at h
  have hval : c.val.toNat = c.toNat := rfl
  omega

theorem encodeChar_ne_nil (c : Char) : encodeChar c ≠ [] := by
  simp only [encodeChar]
  split_ifs <;> exact List.cons_ne_nil _ _

theorem encodeChar_eq_utf8EncodeChar (c : Char) : encodeChar c = String.utf8EncodeChar c := by
  have hvalid := toNat_cases c
  have hval : c.val.toNat = c.toNat := rfl
  simp only [encodeChar, String.utf8EncodeChar, hval, ← Nat.lt_succ_iff, Nat.succ_eq_add_one,
    Nat.reduceAdd]
  -- The bits of the first byte need no mask: the length of the encoding bounds them.
  by_cases h1 : c.toNat < 0x80
  · simp only [h1, ↓reduceIte]
  · by_cases h2 : c.toNat < 0x800
    · have hm : c.toNat / 64 % 0x20 = c.toNat / 64 := Nat.mod_eq_of_lt (by omega)
      simp only [h1, h2, ↓reduceIte, hm, Nat.add_comm]
    · by_cases h3 : c.toNat < 0x10000
      · have hm : c.toNat / 4096 % 0x10 = c.toNat / 4096 := Nat.mod_eq_of_lt (by omega)
        simp only [h1, h2, h3, ↓reduceIte, hm, Nat.add_comm]
      · have hm : c.toNat / 262144 % 0x08 = c.toNat / 262144 := Nat.mod_eq_of_lt (by omega)
        simp only [h1, h2, h3, ↓reduceIte, hm, Nat.add_comm]

/-- Encoding gives the bytes of a string. -/
theorem encode_toList (s : String) : encode s.toList = s.toUTF8.data.toList := by
  have h := congrArg (·.data.toList) (String.utf8Encode_toList (b := s))
  simp only [List.utf8Encode, ← funext encodeChar_eq_utf8EncodeChar] at h
  simpa [encode] using h

theorem encode_injective : Function.Injective encode := by
  intro s t h
  have hs : encode (String.ofList s).toList = encode (String.ofList t).toList := by simpa using h
  rw [encode_toList, encode_toList] at hs
  have hb : (String.ofList s).toByteArray = (String.ofList t).toByteArray := by
    apply ByteArray.ext
    exact Array.toList_inj.mp hs
  exact String.ofList_injective (String.toByteArray_inj.mp hb)

theorem toNat_ofNat_of_lt {n : Nat} (h : n < 256) : (UInt8.ofNat n).toNat = n := by
  rw [UInt8.toNat_ofNat']
  exact Nat.mod_eq_of_lt h

/-- The bytes below 0x80 stand for themselves, wherever they are. -/
theorem exists_toNat_of_mem_encode {text : List Char} {b : UInt8} (hb : b.toNat < 0x80)
    (h : b ∈ encode text) : ∃ c ∈ text, c.toNat = b.toNat := by
  obtain ⟨c, hc, hmem⟩ := List.mem_flatMap.mp h
  refine ⟨c, hc, ?_⟩
  have hlarge : ∀ n, 0x80 ≤ n → n < 256 → b = UInt8.ofNat n → c.toNat = b.toNat := by
    rintro n hlow hhigh rfl
    rw [toNat_ofNat_of_lt hhigh] at hb
    omega
  have hvalid := toNat_cases c
  simp only [encodeChar] at hmem
  split_ifs at hmem with h1 h2 h3 <;> simp only [List.mem_cons, List.not_mem_nil, or_false] at hmem
  · rw [hmem, toNat_ofNat_of_lt (by omega)]
  · rcases hmem with h | h <;> exact hlarge _ (by omega) (by omega) h
  · rcases hmem with h | h | h <;> exact hlarge _ (by omega) (by omega) h
  · rcases hmem with h | h | h | h <;> exact hlarge _ (by omega) (by omega) h

section Pieces

variable {n : Nat} (r : List UInt8)

theorem piecesFrom_ascii (h : n < 0x80) :
    piecesFrom none (UInt8.ofNat n :: r) = .scalar (Char.ofNat n) :: piecesFrom none r := by
  have hn := toNat_ofNat_of_lt (n := n) (by omega)
  simp only [piecesFrom, step, first, hn, h, ↓reduceIte, List.singleton_append]

theorem piecesFrom_two (hlow : 2 ≤ n) (h : n < 0x20) :
    piecesFrom none (UInt8.ofNat (0xC0 + n) :: r) =
      piecesFrom (some ⟨[UInt8.ofNat (0xC0 + n)], n, 1, 0x80, 0xBF⟩) r := by
  have hn := toNat_ofNat_of_lt (n := 0xC0 + n) (by omega)
  simp only [piecesFrom, step, first, hn]
  rw [if_neg (by omega), if_neg (by omega), if_pos (by omega), Nat.add_sub_cancel_left]
  rfl

theorem piecesFrom_three (h : n < 0x10) :
    piecesFrom none (UInt8.ofNat (0xE0 + n) :: r) =
      piecesFrom (some ⟨[UInt8.ofNat (0xE0 + n)], n, 2, if n = 0 then 0xA0 else 0x80,
        if n = 13 then 0x9F else 0xBF⟩) r := by
  have hn := toNat_ofNat_of_lt (n := 0xE0 + n) (by omega)
  have hlow : 0xE0 + n = 0xE0 ↔ n = 0 := by omega
  have hhigh : 0xE0 + n = 0xED ↔ n = 13 := by omega
  simp only [piecesFrom, step, first, hn, hlow, hhigh]
  rw [if_neg (by omega), if_neg (by omega), if_neg (by omega), if_pos (by omega),
    Nat.add_sub_cancel_left]
  rfl

theorem piecesFrom_four (h : n < 5) :
    piecesFrom none (UInt8.ofNat (0xF0 + n) :: r) =
      piecesFrom (some ⟨[UInt8.ofNat (0xF0 + n)], n, 3, if n = 0 then 0x90 else 0x80,
        if n = 4 then 0x8F else 0xBF⟩) r := by
  have hn := toNat_ofNat_of_lt (n := 0xF0 + n) (by omega)
  have hlow : 0xF0 + n = 0xF0 ↔ n = 0 := by omega
  have hhigh : 0xF0 + n = 0xF4 ↔ n = 4 := by omega
  simp only [piecesFrom, step, first, hn, hlow, hhigh]
  rw [if_neg (by omega), if_neg (by omega), if_neg (by omega), if_neg (by omega), if_pos (by omega),
    Nat.add_sub_cancel_left]
  rfl

/-- A byte that continues a character carries six bits. -/
theorem piecesFrom_next {bytes : List UInt8} {bits owed low high : Nat} (h : n < 0x40)
    (hlow : low ≤ 0x80 + n) (hhigh : 0x80 + n ≤ high) :
    piecesFrom (some ⟨bytes, bits, owed, low, high⟩) (UInt8.ofNat (0x80 + n) :: r) =
      if owed ≤ 1 then .scalar (Char.ofNat (bits * 64 + n)) :: piecesFrom none r
      else piecesFrom (some ⟨bytes ++ [UInt8.ofNat (0x80 + n)], bits * 64 + n, owed - 1, 0x80, 0xBF⟩) r := by
  have hn := toNat_ofNat_of_lt (n := 0x80 + n) (by omega)
  simp only [piecesFrom, step, Begun.next?, hn, hlow, hhigh, and_self, ↓reduceIte,
    Nat.add_sub_cancel_left]
  by_cases ho : owed ≤ 1
  · simp only [ho, ↓reduceIte, List.singleton_append]
  · simp only [ho, ↓reduceIte, List.nil_append]

theorem piecesFrom_encodeChar (c : Char) :
    piecesFrom none (encodeChar c ++ r) = .scalar c :: piecesFrom none r := by
  have hc := toNat_cases c
  unfold encodeChar
  by_cases h1 : c.toNat < 0x80
  · simp only [h1, ↓reduceIte, List.singleton_append, piecesFrom_ascii r h1, Char.ofNat_toNat]
  by_cases h2 : c.toNat < 0x800
  · have hbits : c.toNat / 64 * 64 + c.toNat % 64 = c.toNat := by omega
    simp only [h1, h2, ↓reduceIte, List.cons_append, List.nil_append]
    rw [piecesFrom_two _ (by omega) (by omega), piecesFrom_next _ (by omega) (by omega) (by omega)]
    simp only [Nat.le_refl, ↓reduceIte, hbits, Char.ofNat_toNat]
  by_cases h3 : c.toNat < 0x10000
  · have hbits : (c.toNat / 4096 * 64 + c.toNat / 64 % 64) * 64 + c.toNat % 64 = c.toNat := by omega
    simp only [h1, h2, h3, ↓reduceIte, List.cons_append, List.nil_append]
    rw [piecesFrom_three _ (by omega), piecesFrom_next _ (by omega) (by split <;> omega) (by split <;> omega)]
    simp only [Nat.reduceLeDiff, ↓reduceIte, Nat.reduceSub]
    rw [piecesFrom_next _ (by omega) (by omega) (by omega)]
    simp only [Nat.le_refl, ↓reduceIte, hbits, Char.ofNat_toNat]
  · have hbits : ((c.toNat / 262144 * 64 + c.toNat / 4096 % 64) * 64 + c.toNat / 64 % 64) * 64 +
        c.toNat % 64 = c.toNat := by omega
    simp only [h1, h2, h3, ↓reduceIte, List.cons_append, List.nil_append]
    rw [piecesFrom_four _ (by omega), piecesFrom_next _ (by omega) (by split <;> omega) (by split <;> omega)]
    simp only [Nat.reduceLeDiff, ↓reduceIte, Nat.reduceSub]
    rw [piecesFrom_next _ (by omega) (by omega) (by omega)]
    simp only [Nat.reduceLeDiff, ↓reduceIte, Nat.reduceSub]
    rw [piecesFrom_next _ (by omega) (by omega) (by omega)]
    simp only [Nat.le_refl, ↓reduceIte, hbits, Char.ofNat_toNat]

/-- Encoded text is read back, each character as a piece of its own. -/
theorem pieces_encode (text : List Char) : pieces (encode text) = text.map .scalar := by
  induction text with
  | nil => rfl
  | cons c t ih =>
    have hc : encode (c :: t) = encodeChar c ++ encode t := rfl
    rw [hc, pieces, piecesFrom_encodeChar, ← pieces, ih, List.map_cons]

/-- Encoded text is well formed. -/
theorem decode?_encode (text : List Char) : decode? (encode text) = some text := by
  rw [decode?, pieces_encode]
  induction text with
  | nil => rfl
  | cons c t ih => simp [ih, Piece.scalar?]

end Pieces
end AnnotationReport.Text.Utf8
