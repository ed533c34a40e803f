import AnnotationReport.Proofs.Json.Numerals
import AnnotationReport.Proofs.Text.Utf8

/-! # Spelling

Which tokens a text is read as, whatever follows it. A word or a numeral goes on until something else
comes, so what follows must be able to end it: nothing, or a mark. A quoted text ends by itself, and
its parts mean the text that was quoted.
-/
namespace AnnotationReport.Json

/-- Reading on from a state. -/
def Lexer.scan (s : Lexer) (text : List Char) : Option (List Token) := s.run (text.map .scalar)

theorem tokens?_encode (text : List Char) :
    tokens? (Text.Utf8.encode text) = Lexer.idle.scan text := by
  rw [tokens?, Text.Utf8.pieces_encode, Lexer.scan]

/-- What can follow a word or a numeral. -/
def Closes : List Char → Prop
  | [] => True
  | c :: _ => (Lexer.mark? c).isSome

/-- What can follow a word or a numeral where there is white space. -/
def Ends : List Char → Prop
  | [] => True
  | c :: _ => (Lexer.mark? c).isSome ∨ Lexer.isSpace c

/-- A text that is read as some tokens, whatever comes after it that can end them. -/
def Spells (text : List Char) (tokens : List Token) : Prop :=
  ∀ rest, Closes rest → Lexer.idle.scan (text ++ rest) = (Lexer.idle.scan rest).map (tokens ++ ·)

section Scan

open Lexer

variable {s t : Lexer} {c : Char} {text rest : List Char} {token : Token}

theorem scan_cons (s : Lexer) (c : Char) (rest : List Char) :
    s.scan (c :: rest) = (s.step c).bind fun (ts, t) => (t.scan rest).map (ts ++ ·) := rfl

/-- A character that only changes the state. -/
theorem scan_quiet (h : s.step c = some ([], t)) (rest : List Char) :
    s.scan (c :: rest) = t.scan rest := by
  simp [scan_cons, h]

theorem scan_mark (h : mark? c = some token) (rest : List Char) :
    idle.scan (c :: rest) = (idle.scan rest).map (token :: ·) := by
  simp [scan_cons, step, start, h]

theorem mark_cases (h : (mark? c).isSome) :
    c = '[' ∨ c = ']' ∨ c = '\x7b' ∨ c = '\x7d' ∨ c = ':' ∨ c = ',' := by
  by_contra hn
  simp only [not_or] at hn
  simp [mark?, hn] at h

theorem Closes.ends (h : Closes rest) : Ends rest := by
  cases rest with
  | nil => trivial
  | cons c r => exact .inl h

theorem start_space (h : isSpace c) : start c = some ([], idle) := by
  have hmark : mark? c = none := by
    rw [← Option.not_isSome_iff_eq_none]
    intro hm
    rcases mark_cases hm with rfl | rfl | rfl | rfl | rfl | rfl <;> cases h
  simp [start, hmark, h]

/-- White space and marks are no part of a word or a numeral. -/
theorem ends_cases (h : (mark? c).isSome ∨ isSpace c) : isNumeric c = false ∧ c.isAlpha = false := by
  rcases h with h | h
  · rcases mark_cases h with rfl | rfl | rfl | rfl | rfl | rfl <;> exact ⟨rfl, rfl⟩
  · simp only [isSpace, Bool.or_eq_true, decide_eq_true_eq] at h
    rcases h with ((rfl | rfl) | rfl) | rfl <;> exact ⟨rfl, rfl⟩

/-- What ends a token is then read by itself. -/
theorem scan_ended (hfinish : s.finish = some [token])
    (hstep : ∀ c, (mark? c).isSome ∨ isSpace c → s.step c = close (some token) c) (h : Ends rest) :
    s.scan rest = (idle.scan rest).map (token :: ·) := by
  cases rest with
  | nil => exact hfinish
  | cons c r =>
    rw [scan_cons, hstep c h, scan_cons, step]
    rcases h with h | h
    · obtain ⟨mark, hm⟩ := Option.isSome_iff_exists.mp h
      simp [close, start, hm, Function.comp_def]
    · simp [close, start_space h]

/-- Characters that a token takes in one after the other. -/
theorem scan_through {f : List Char → Lexer} {text : List Char}
    (h : ∀ c ∈ text, ∀ chars, (f chars).step c = some ([], f (c :: chars))) (chars rest : List Char) :
    (f chars).scan (text ++ rest) = (f (text.reverse ++ chars)).scan rest := by
  induction text generalizing chars with
  | nil => rfl
  | cons c r ih =>
    obtain ⟨hc, hr⟩ := List.forall_mem_cons.mp h
    rw [List.cons_append, scan_quiet (hc chars), ih hr]
    simp

end Scan

section Words

open Lexer

theorem scan_word {c : Char} {letters rest : List Char} {token : Token}
    (hstart : idle.step c = some ([], word [c])) (hall : letters.all Char.isAlpha = true)
    (ht : wordToken? (c :: letters) = some token) (hrest : Ends rest) :
    idle.scan (c :: letters ++ rest) = (idle.scan rest).map (token :: ·) := by
  have hletter : ∀ d ∈ letters, ∀ chars, (word chars).step d = some ([], word (d :: chars)) := by
    intro d hd chars
    simp [step, List.all_eq_true.mp hall d hd]
  rw [List.cons_append, scan_quiet hstart, scan_through hletter]
  refine scan_ended (by simp [finish, ht]) ?_ hrest
  intro d hd
  simp [step, (ends_cases hd).2, ht]

theorem spells_null : Spells ['n', 'u', 'l', 'l'] [.null] := fun _ h => scan_word rfl rfl rfl h.ends

theorem spells_true : Spells ['t', 'r', 'u', 'e'] [.bool true] := fun _ h => scan_word rfl rfl rfl h.ends

theorem spells_false : Spells ['f', 'a', 'l', 's', 'e'] [.bool false] := fun _ h => scan_word rfl rfl rfl h.ends

end Words

section Numerals

open Lexer

theorem step_numeral {c : Char} (h : c = '-' ∨ c.isDigit) :
    idle.step c = some ([], numeral [c]) := by
  rcases h with rfl | h
  · rfl
  · have hends : ¬((mark? c).isSome ∨ isSpace c) := by
      intro he
      have hnumeric := (ends_cases he).1
      rw [Numeral.isNumeric_of_isDigit h] at hnumeric
      cases hnumeric
    have hmark : mark? c = none := Option.not_isSome_iff_eq_none.mp (not_or.mp hends).1
    have hspace : isSpace c = false := Bool.eq_false_iff.mpr (not_or.mp hends).2
    have hquote : c ≠ '"' := by
      rintro rfl
      cases h
    simp [step, start, hmark, hspace, hquote, h]

theorem scan_numeral {text rest : List Char} {n : Numeral} (h : Numeral.ofChars? text = some n)
    (hrest : Ends rest) : idle.scan (text ++ rest) = (idle.scan rest).map (.number n :: ·) := by
  obtain ⟨hall, c, r, rfl, hc⟩ := Numeral.ofChars?_eq_some h
  have hchar : ∀ d ∈ r, ∀ chars, (numeral chars).step d = some ([], numeral (d :: chars)) := by
    intro d hd chars
    simp [step, hall d (List.mem_cons_of_mem c hd)]
  rw [List.cons_append, scan_quiet (step_numeral hc), scan_through hchar]
  refine scan_ended (by simp [finish, h]) ?_ hrest
  intro d hd
  simp [step, (ends_cases hd).1, h]

theorem spells_numeral {text : List Char} {n : Numeral} (h : Numeral.ofChars? text = some n) :
    Spells text [.number n] :=
  fun _ hrest => scan_numeral h hrest.ends

end Numerals

section Strings

open Lexer

theorem hexValue?_hexDigit (n : Nat) : Text.hexValue? (hexDigit n) = some (n % 16) := by
  have h : ∀ i : Fin 16, Text.hexValue? (Nat.digitChar i) = some i.val := by decide
  exact h ⟨n % 16, Nat.mod_lt n (by decide)⟩

/-- A unit that is no half of a pair is a character, whatever follows. -/
theorem textOf?_unit {u : Nat} (h : u < 0xD800) (r : List StringPart) :
    textOf? (.unit u :: r) = (textOf? r).map (Char.ofNat u :: ·) := by
  have hhigh : isHighSurrogate u = false := by simp [isHighSurrogate]; omega
  have hlow : isLowSurrogate u = false := by simp [isLowSurrogate]; omega
  rcases r with _ | ⟨_ | _ | _, r⟩ <;> simp [textOf?, hhigh, hlow]

/-- A control character is written by its number, of which two digits are always zero. -/
theorem scan_unit {n : Nat} (h : n < 0x20) (ps : List StringPart) (rest : List Char) :
    (Lexer.string ps).scan ('\\' :: 'u' :: '0' :: '0' :: hexDigit (n / 16) :: hexDigit n :: rest) =
      (Lexer.string (.unit n :: ps)).scan rest := by
  have hfirst : (hex ps 2 0).step (hexDigit (n / 16)) = some ([], hex ps 3 (n / 16)) := by
    simp only [step, hexValue?_hexDigit, Option.map_some]
    rw [if_neg (by decide), Nat.zero_mul, Nat.zero_add, Nat.mod_eq_of_lt (by omega)]
  have hsecond : (hex ps 3 (n / 16)).step (hexDigit n) = some ([], Lexer.string (.unit n :: ps)) := by
    simp only [step, hexValue?_hexDigit, Option.map_some]
    rw [if_pos trivial, Nat.div_add_mod']
  have hzeros : ∀ rest, (Lexer.string ps).scan ('\\' :: 'u' :: '0' :: '0' :: rest) =
      (hex ps 2 0).scan rest := fun _ =>
    (scan_quiet rfl _).trans ((scan_quiet rfl _).trans ((scan_quiet rfl _).trans (scan_quiet rfl _)))
  rw [hzeros, scan_quiet hfirst, scan_quiet hsecond]

/-- A part that means a character, as which some text inside quotes is read. -/
def PartFor (c : Char) (text : List Char) (p : StringPart) : Prop :=
  (∀ r, textOf? (p :: r) = (textOf? r).map (c :: ·)) ∧
    ∀ ps rest, (Lexer.string ps).scan (text ++ rest) = (Lexer.string (p :: ps)).scan rest

theorem partFor_escaped {c d : Char} (h : escaped? d = some c) (hd : d ≠ 'u') :
    PartFor c ['\\', d] (.char c) := by
  refine ⟨fun _ => rfl, fun ps rest => ?_⟩
  have hstep : (escape ps).step d = some ([], Lexer.string (.char c :: ps)) := by simp [step, h, hd]
  exact (scan_quiet rfl _).trans (scan_quiet hstep _)

/-- However a character is written, it is read as a part that means it. -/
theorem exists_partFor (c : Char) : ∃ p, PartFor c (escapeChar c) p := by
  unfold escapeChar
  -- Seven characters have an escape of their own, the other controls go by their number.
  split_ifs with h1 h2 h3 h4 h5 h6 h7 h8
  · exact ⟨_, partFor_escaped (by rw [h1]; rfl) (by decide)⟩
  · exact ⟨_, partFor_escaped (by rw [h2]; rfl) (by decide)⟩
  · exact ⟨_, partFor_escaped (by rw [h3]; rfl) (by decide)⟩
  · exact ⟨_, partFor_escaped (by rw [h4]; rfl) (by decide)⟩
  · exact ⟨_, partFor_escaped (by rw [h5]; rfl) (by decide)⟩
  · exact ⟨_, partFor_escaped (by rw [h6]; rfl) (by decide)⟩
  · exact ⟨_, partFor_escaped (by rw [h7]; rfl) (by decide)⟩
  · refine ⟨.unit c.toNat, fun r => ?_, fun ps rest => scan_unit h8 ps rest⟩
    rw [textOf?_unit (by omega), Char.ofNat_toNat]
  · refine ⟨.char c, fun _ => rfl, fun ps rest => scan_quiet ?_ rest⟩
    simp [step, h1, h2, h8]

theorem exists_parts (text : List Char) :
    ∃ parts, textOf? parts = some text ∧ ∀ ps rest,
      (Lexer.string ps).scan (text.flatMap escapeChar ++ rest) =
        (Lexer.string (parts.reverse ++ ps)).scan rest := by
  induction text with
  | nil => exact ⟨[], rfl, fun _ _ => rfl⟩
  | cons c r ih =>
    obtain ⟨p, htext, hscan⟩ := exists_partFor c
    obtain ⟨parts, hparts, hrest⟩ := ih
    refine ⟨p :: parts, by rw [htext, hparts]; rfl, fun ps rest => ?_⟩
    rw [List.flatMap_cons, List.append_assoc, hscan, hrest]
    simp

theorem spells_quote (s : String) :
    ∃ parts, stringOf? parts = some s ∧ Spells (quote s) [.string parts] := by
  obtain ⟨parts, htext, hscan⟩ := exists_parts s.toList
  refine ⟨parts, by simp [stringOf?, htext], fun rest _ => ?_⟩
  have hclose : (Lexer.string (parts.reverse ++ [])).step '"' = some ([.string parts], idle) := by simp [step]
  have hquote : quote s ++ rest = '"' :: (s.toList.flatMap escapeChar ++ '"' :: rest) := by simp [quote]
  rw [hquote, scan_quiet rfl, hscan, scan_cons, hclose]
  rfl

end Strings

section Marks

variable {text other : List Char} {tokens others : List Token} {c : Char} {mark : Token}

theorem spells_nil : Spells [] [] := by
  intro rest _
  simp

theorem Spells.after_mark (hm : Lexer.mark? c = some mark) (h : Spells text tokens) :
    Spells (c :: text) (mark :: tokens) := by
  intro rest hrest
  rw [List.cons_append, scan_mark hm, h rest hrest]
  simp [Function.comp_def]

/-- A mark between two texts keeps them apart. -/
theorem Spells.append_mark (h : Spells text tokens) (hm : Lexer.mark? c = some mark)
    (ho : Spells other others) : Spells (text ++ c :: other) (tokens ++ mark :: others) := by
  intro rest hrest
  have hcloses : Closes (c :: (other ++ rest)) := by simp [Closes, hm]
  rw [List.append_assoc, List.cons_append, h _ hcloses, scan_mark hm, ho rest hrest]
  simp [Function.comp_def]

theorem Spells.tokens? (h : Spells text tokens) : tokens? (Text.Utf8.encode text) = some tokens := by
  have hend := h [] trivial
  rw [List.append_nil] at hend
  rw [tokens?_encode, hend]
  simp [Lexer.scan, Lexer.run, Lexer.finish]

end Marks

end AnnotationReport.Json
