import AnnotationReport.Url.Path

/-! # Decoding undoes encoding

A part of a URL that encodes percent signs decodes to the bytes of its text. A slash is never part
of an encoded byte, so a path decodes segment by segment.
-/
namespace AnnotationReport.Url

section Bytes

def hexDigits : List Char := "0123456789ABCDEF".toList

theorem hexDigit_mem (n : Nat) : hexDigit n ∈ hexDigits := by
  have h : ∀ k : Fin 16, (Nat.digitChar k).toUpper ∈ hexDigits := by decide
  exact h ⟨n % 16, Nat.mod_lt n (by decide)⟩

theorem hexValue?_hexDigit (n : Nat) : Text.hexValue? (hexDigit n) = some (n % 16) := by
  have h : ∀ k : Fin 16, Text.hexValue? (Nat.digitChar k).toUpper = some k.val := by decide
  exact h ⟨n % 16, Nat.mod_lt n (by decide)⟩

theorem byteOf?_hexDigit (b : UInt8) :
    byteOf? (hexDigit (b.toNat / 16)) (hexDigit b.toNat) = some b := by
  have hb : b.toNat < 256 := b.toNat_lt
  have hvalue : b.toNat / 16 % 16 * 16 + b.toNat % 16 = b.toNat := by omega
  simp [byteOf?, hexValue?_hexDigit, hvalue]

theorem decode_encodeByte (b : UInt8) (r : List Char) :
    decode (encodeByte b ++ r) = b :: decode r := by
  simp [encodeByte, decode, byteOf?_hexDigit]

theorem decode_encodeBytes (bytes : List UInt8) (r : List Char) :
    decode (bytes.flatMap encodeByte ++ r) = bytes ++ decode r := by
  induction bytes with
  | nil => rfl
  | cons b t ih => rw [List.flatMap_cons, List.append_assoc, decode_encodeByte, ih, List.cons_append]

theorem decode_cons {c : Char} (hc : c ≠ '%') (r : List Char) :
    decode (c :: r) = Text.Utf8.encodeChar c ++ decode r := by
  match r with
  | [] => simp [decode]
  | [_] => rfl
  | _ :: _ :: _ => simp [decode, hc]

end Bytes

section Encoded

variable {set : EncodeSet}

theorem decode_encodeChar (hset : set '%' = true) (c : Char) (r : List Char) :
    decode (encodeChar set c ++ r) = Text.Utf8.encodeChar c ++ decode r := by
  unfold encodeChar
  split
  · exact decode_encodeBytes _ r
  · rename_i hc
    have hp : c ≠ '%' := by
      rintro rfl
      exact hc hset
    exact decode_cons hp r

theorem decode_encode_append (hset : set '%' = true) (text r : List Char) :
    decode (encode set text ++ r) = Text.Utf8.encode text ++ decode r := by
  induction text with
  | nil => rfl
  | cons c t ih =>
    rw [encode, List.flatMap_cons, List.append_assoc, decode_encodeChar hset]
    change _ ++ decode (encode set t ++ r) = _
    rw [ih, ← List.append_assoc]
    rfl

/-- What needs no encoding stays as it is. -/
theorem encode_eq_self {text : List Char} (h : ∀ c ∈ text, set c = false) : encode set text = text := by
  induction text with
  | nil => rfl
  | cons c r ih =>
    obtain ⟨hc, hr⟩ := List.forall_mem_cons.mp h
    have hcons : encode set (c :: r) = encodeChar set c ++ encode set r := rfl
    rw [hcons, ih hr, encodeChar, hc]
    rfl

/-- Where percent signs are encoded, encoding loses nothing. -/
theorem decode_encode (hset : set '%' = true) (text : List Char) :
    decode (encode set text) = Text.Utf8.encode text := by
  have h := decode_encode_append hset text []
  rwa [List.append_nil, decode, List.append_nil] at h

theorem mem_encode {c : Char} {text : List Char} (h : c ∈ encode set text) :
    (c ∈ text ∧ set c = false) ∨ c = '%' ∨ c ∈ hexDigits := by
  obtain ⟨d, hd, hc⟩ := List.mem_flatMap.mp h
  unfold encodeChar at hc
  split at hc
  · obtain ⟨b, _, hb⟩ := List.mem_flatMap.mp hc
    simp only [encodeByte, List.mem_cons, List.not_mem_nil, or_false] at hb
    rcases hb with rfl | rfl | rfl
    · exact .inr (.inl rfl)
    · exact .inr (.inr (hexDigit_mem _))
    · exact .inr (.inr (hexDigit_mem _))
  · rename_i hn
    obtain rfl := List.mem_singleton.mp hc
    exact .inl ⟨hd, Bool.eq_false_iff.mpr hn⟩

end Encoded

section Slashes

theorem byteOf?_slash_left (c : Char) : byteOf? '/' c = none := rfl

theorem byteOf?_slash_right (c : Char) : byteOf? c '/' = none := by
  have h : Text.hexValue? '/' = none := rfl
  unfold byteOf?
  rw [h]
  cases Text.hexValue? c <;> rfl

theorem decode_cons_slash (c : Char) (r : List Char) :
    decode (c :: '/' :: r) = Text.Utf8.encodeChar c ++ decode ('/' :: r) := by
  by_cases hc : c = '%'
  · subst hc
    match r with
    | [] => rfl
    | d :: r => simp [decode, byteOf?_slash_left]
  · exact decode_cons hc _

/-- What stands before a slash and what stands after it are decoded each for itself. -/
theorem decode_append_slash (text r : List Char) :
    decode (text ++ '/' :: r) = decode text ++ decode ('/' :: r) := by
  induction text using decode.induct with
  | case1 => rfl
  | case2 c => exact decode_cons_slash c r
  | case3 c d =>
    have hd := decode_cons_slash d r
    by_cases hc : c = '%'
    · subst hc
      simp only [List.cons_append, List.nil_append, decode, byteOf?_slash_right, ↓reduceIte, hd,
        List.append_assoc]
    · simp only [List.cons_append, List.nil_append, decode_cons hc, hd]
      simp [decode]
  | case4 a b t byte hbyte ih => simp [decode, hbyte, ih]
  | case5 a b t hnone ih =>
    simp only [List.cons_append] at ih ⊢
    simp [decode, hnone, ih]
  | case6 c a b t hc ih =>
    simp only [List.cons_append] at ih ⊢
    rw [decode_cons hc, ih, decode_cons hc, List.append_assoc]

theorem decode_slash (r : List Char) : decode ('/' :: r) = 47 :: decode r :=
  decode_cons (by decide) r

theorem decode_append_joined (text : List Char) (segments : List Segment) :
    decode (text ++ Path.joined segments) =
      decode text ++ segments.flatMap fun s => 47 :: decode s := by
  induction segments generalizing text with
  | nil => simp [Path.joined]
  | cons s r ih =>
    have hs := ih s
    simp only [Path.joined, List.flatMap_cons, List.cons_append] at hs ⊢
    rw [decode_append_slash, decode_slash, hs]

end Slashes

end AnnotationReport.Url
