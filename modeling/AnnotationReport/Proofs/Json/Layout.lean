import AnnotationReport.Proofs.Json.Decimals
import AnnotationReport.Proofs.Json.Reading
import AnnotationReport.Proofs.Json.Spelling

/-! # Layouts of a document

The texts that write a document: its tokens in their order, each in one of its spellings, with any white
space around them. Whatever the layout, the document is what is read.
-/
namespace AnnotationReport.Json

section Grammar

def digitChars (ds : List Nat) : List Char := ds.map Nat.digitChar

/-- An exponent is a letter, perhaps a sign, and digits. It may also be left out. -/
inductive ExponentText : Option Int → List Char → Prop
  | none : ExponentText none []
  | some {letter : Char} {sign : List Char} {factor : Int} {ds : List Nat} :
      letter ∈ ['e', 'E'] → (sign, factor) ∈ [([], 1), (['+'], 1), (['-'], -1)] →
        ds ≠ [] → (∀ d ∈ ds, d < 10) →
          ExponentText (some (factor * Text.ofDigits 10 ds)) (letter :: (sign ++ digitChars ds))

/-- A numeral is an integer without needless zeros, perhaps a point with digits, and an exponent. -/
inductive NumeralText : Numeral → List Char → Prop
  | mk {whole fraction : List Nat} {exponent : Option Int} {tail : List Char} (negative : Bool) :
      Numeral.isWhole whole → (∀ d ∈ whole, d < 10) → (∀ d ∈ fraction, d < 10) →
        ExponentText exponent tail →
          NumeralText ⟨negative, whole, fraction, exponent⟩
            ((if negative then ['-'] else []) ++ (digitChars whole ++
              ((if fraction = [] then [] else '.' :: digitChars fraction) ++ tail)))

/-- The letters that follow a backslash, and what they stand for. -/
def escapes : List (Char × Char) :=
  [('"', '"'), ('\\', '\\'), ('/', '/'), ('b', '\x08'), ('f', '\x0c'), ('n', '\n'), ('r', '\r'),
    ('t', '\t')]

/-- A character of a string stands for itself, or it is escaped by a letter or by four hexadecimal digits. -/
inductive PartText : StringPart → List Char → Prop
  | plain {c : Char} : 0x20 ≤ c.toNat → c ≠ '"' → c ≠ '\\' → PartText (.char c) [c]
  | letter {d c : Char} : (d, c) ∈ escapes → PartText (.char c) ['\\', d]
  | unit {a b c d : Char} {w x y z : Nat} :
      Text.hexValue? a = some w → Text.hexValue? b = some x → Text.hexValue? c = some y →
        Text.hexValue? d = some z →
          PartText (.unit (((w * 16 + x) * 16 + y) * 16 + z)) ['\\', 'u', a, b, c, d]

def marks : List (Char × Token) :=
  [('[', .arrayStart), (']', .arrayEnd), ('\x7b', .objectStart), ('\x7d', .objectEnd), (':', .colon),
    (',', .comma)]

inductive TokenText : Token → List Char → Prop
  | mark {c : Char} {t : Token} : (c, t) ∈ marks → TokenText t [c]
  | null : TokenText .null ['n', 'u', 'l', 'l']
  | true : TokenText (.bool true) ['t', 'r', 'u', 'e']
  | false : TokenText (.bool false) ['f', 'a', 'l', 's', 'e']
  | number {n : Numeral} {text : List Char} : NumeralText n text → TokenText (.number n) text
  | string {parts : List (StringPart × List Char)} : (∀ p ∈ parts, PartText p.1 p.2) →
      TokenText (.string (parts.map Prod.fst)) ('"' :: (parts.flatMap Prod.snd ++ ['"']))

abbrev IsBlank (text : List Char) : Prop := ∀ c ∈ text, c ∈ [' ', '\t', '\n', '\r']

/-- A token as it is written, with the white space after it. -/
structure Word where
  token : Token
  text : List Char
  blank : List Char
  writes : TokenText token text
  isBlank : IsBlank blank

/-- One way to write a document: some white space and the tokens of the document as words. -/
structure Layout (d : Document) where
  margin : List Char
  words : List Word
  isBlank : IsBlank margin
  tokens_eq : words.map Word.token = d.tokens

def wordsText (words : List Word) : List Char := words.flatMap fun w => w.text ++ w.blank

def Layout.text {d : Document} (l : Layout d) : List Char := l.margin ++ wordsText l.words

/-- The bytes of a text. -/
def Layout.body {d : Document} (l : Layout d) : List UInt8 := Text.Utf8.encode l.text

/-- A string whose characters stand for themselves. -/
def plainKey (text : String) : Key := text.toList.map .char

theorem stringOf?_plainKey (key : String) : stringOf? (plainKey key) = some key := by
  have htext : ∀ cs : List Char, textOf? (cs.map .char) = some cs := by
    intro cs
    induction cs with
    | nil => rfl
    | cons c r ih => simp [textOf?, ih]
  simp [stringOf?, plainKey, htext]

/-- Whether a character may stand for itself. -/
abbrev IsPlain (c : Char) : Prop := 0x20 ≤ c.toNat ∧ c ≠ '"' ∧ c ≠ '\\'

theorem partText_plain {text : String} (h : ∀ c ∈ text.toList, IsPlain c) :
    ∀ p ∈ text.toList.map fun c => (StringPart.char c, [c]), PartText p.1 p.2 := by
  intro p hp
  obtain ⟨c, hc, rfl⟩ := List.mem_map.mp hp
  obtain ⟨hlow, hquote, hback⟩ := h c hc
  exact .plain hlow hquote hback

theorem tokenText_plainKey {text : String} (h : ∀ c ∈ text.toList, IsPlain c) :
    TokenText (.string (plainKey text)) ('"' :: (text.toList ++ ['"'])) := by
  have htext := TokenText.string (partText_plain h)
  rw [List.map_map, List.flatMap_map] at htext
  have hflat : (text.toList.flatMap fun c => [c]) = text.toList := List.flatMap_singleton' _
  exact hflat ▸ htext

/-- Only the first character is escaped. -/
theorem tokenText_escaped {p : StringPart × List Char} {text : String} (hp : PartText p.1 p.2)
    (h : ∀ c ∈ text.toList, IsPlain c) :
    TokenText (.string (p.1 :: plainKey text)) ('"' :: (p.2 ++ text.toList ++ ['"'])) := by
  have htext := TokenText.string (List.forall_mem_cons.mpr ⟨hp, partText_plain h⟩)
  rw [List.map_cons, List.map_map, List.flatMap_cons, List.flatMap_map] at htext
  have hflat : (text.toList.flatMap fun c => [c]) = text.toList := List.flatMap_singleton' _
  exact hflat ▸ htext

/-- A natural number is written by its digits. -/
theorem tokenText_digits {ds : List Nat} (hwhole : Numeral.isWhole ds) (h : ∀ d ∈ ds, d < 10) :
    TokenText (.number ⟨false, ds, [], none⟩) (digitChars ds) := by
  have htext := NumeralText.mk false hwhole h (List.forall_mem_nil _) .none
  rw [if_neg Bool.false_ne_true, if_pos rfl, List.nil_append, List.nil_append, List.append_nil] at htext
  exact .number htext

theorem isBlank_nil : IsBlank [] := List.forall_mem_nil _

theorem isBlank_space : IsBlank [' '] := List.forall_mem_singleton.mpr List.mem_cons_self

namespace Word

def openArray : Word := ⟨.arrayStart, ['['], [], .mark (by decide), isBlank_nil⟩

def closeArray : Word := ⟨.arrayEnd, [']'], [], .mark (by decide), isBlank_nil⟩

def openObject : Word := ⟨.objectStart, ['\x7b'], [], .mark (by decide), isBlank_nil⟩

def closeObject : Word := ⟨.objectEnd, ['\x7d'], [], .mark (by decide), isBlank_nil⟩

def colon : Word := ⟨.colon, [':'], [], .mark (by decide), isBlank_nil⟩

def comma : Word := ⟨.comma, [','], [], .mark (by decide), isBlank_nil⟩

def ofText (text : String) (h : text.toList.all (IsPlain ·)) : Word :=
  ⟨_, _, [], tokenText_plainKey fun c hc => of_decide_eq_true (List.all_eq_true.mp h c hc), isBlank_nil⟩

def ofDigits (ds : List Nat) (hwhole : Numeral.isWhole ds) (h : ds.all (· < 10)) : Word :=
  ⟨_, _, [], tokenText_digits hwhole fun d hd => of_decide_eq_true (List.all_eq_true.mp h d hd), isBlank_nil⟩

end Word

end Grammar

section Numerals

open Numeral

variable {ds : List Nat}

theorem digitChar_isDigit {d : Nat} (h : d < 10) :
    (Nat.digitChar d).isDigit = true ∧ digit (Nat.digitChar d) = d := by
  have hall : ∀ i : Fin 10, (Nat.digitChar i).isDigit = true ∧ digit (Nat.digitChar i) = i.val := by decide
  exact hall ⟨d, h⟩

/-- A digit is neither of the signs. -/
theorem digitChar_ne {d : Nat} (h : d < 10) {c : Char} (hc : c.isDigit = false) : Nat.digitChar d ≠ c := by
  rintro rfl
  rw [(digitChar_isDigit h).1] at hc
  cases hc

theorem digitChars_allDigits (h : ∀ d ∈ ds, d < 10) : AllDigits (digitChars ds) := by
  intro c hc
  obtain ⟨d, hd, rfl⟩ := List.mem_map.mp hc
  exact (digitChar_isDigit (h d hd)).1

theorem map_digit_digitChars (h : ∀ d ∈ ds, d < 10) : (digitChars ds).map digit = ds := by
  rw [digitChars, List.map_map]
  exact (List.map_congr_left fun d hd => (digitChar_isDigit (h d hd)).2).trans (List.map_id' ds)

/-- Digits that begin with no needless zero are the digits of their number. -/
theorem decimal_ofDigits (hwhole : isWhole ds) (h : ∀ d ∈ ds, d < 10) :
    Text.decimal (Text.ofDigits 10 ds) = digitChars ds := by
  induction ds using List.reverseRecOn with
  | nil => cases hwhole
  | append_singleton r d ih =>
    obtain ⟨hr, hd⟩ := List.forall_mem_append.mp h
    have hd := hd d List.mem_cons_self
    have hvalue : Text.ofDigits 10 (r ++ [d]) = 10 * Text.ofDigits 10 r + d := by
      rw [Text.ofDigits_concat, Nat.mul_comm]
    have hlast : Text.decimal d = [Nat.digitChar d] := Nat.toDigits_of_lt_base hd
    cases r with
    | nil =>
      have hone : Text.ofDigits 10 [d] = d := by simp [Text.ofDigits]
      rw [List.nil_append, hone, hlast]
      rfl
    | cons e t =>
      -- The first digit is not zero, since another one follows.
      have he : 0 < e := by
        refine Nat.pos_of_ne_zero ?_
        rintro rfl
        simp [isWhole] at hwhole
      have hstart : isWhole (e :: t) := by
        obtain ⟨k, rfl⟩ := Nat.exists_eq_succ_of_ne_zero he.ne'
        rfl
      have hpos : 0 < Text.ofDigits 10 (e :: t) := by
        have happend := ofDigits_append [e] t
        have hone : Text.ofDigits 10 [e] = e := by simp [Text.ofDigits]
        rw [List.singleton_append, hone] at happend
        rw [happend]
        positivity
      have hdigits := ih hstart hr
      rw [Text.decimal] at hdigits hlast
      rw [hvalue, Text.decimal, ← Nat.toDigits_append_toDigits (by decide) hpos hd, hdigits, hlast]
      simp [digitChars]

/-- A natural number has one text. -/
theorem decimal_of_tokenText {text : List Char} (h : TokenText (.number ⟨false, ds, [], none⟩) text) :
    text = Text.decimal (Text.ofDigits 10 ds) := by
  cases h with
  | mark h => simp [marks] at h
  | number h =>
    cases h with
    | mk _ hwhole hds _ hexponent =>
      cases hexponent with
      | none =>
        rw [decimal_ofDigits hwhole hds]
        simp

theorem unsignedExponent?_digitChars (hne : ds ≠ []) (h : ∀ d ∈ ds, d < 10) :
    unsignedExponent? (digitChars ds) = some (Text.ofDigits 10 ds) := by
  have hend : EndsDigits [] := trivial
  obtain ⟨hdigits, hrest⟩ := digits_append (digitChars_allDigits h) hend
  rw [List.append_nil, map_digit_digitChars h] at hdigits
  rw [List.append_nil] at hrest
  simp [unsignedExponent?, hdigits, hrest, hne]

theorem exponent?_of_text {exponent : Option Int} {text : List Char} (h : ExponentText exponent text) :
    exponent? text = some exponent := by
  cases h with
  | none => rfl
  | @some letter sign factor ds hletter hsign hne hds =>
    have hnumber := unsignedExponent?_digitChars hne hds
    have hmark : ¬(letter ≠ 'e' ∧ letter ≠ 'E') := by
      simp only [List.mem_cons, List.not_mem_nil, or_false] at hletter
      tauto
    simp only [List.mem_cons, Prod.mk.injEq, List.not_mem_nil, or_false] at hsign
    rcases hsign with ⟨rfl, rfl⟩ | ⟨rfl, rfl⟩ | ⟨rfl, rfl⟩
    · -- Without a sign the first digit follows, which is neither of the signs.
      obtain ⟨d, r, rfl⟩ := List.exists_cons_of_ne_nil hne
      have hd := hds d List.mem_cons_self
      have hminus : Nat.digitChar d ≠ '-' := digitChar_ne hd rfl
      have hplus : Nat.digitChar d ≠ '+' := digitChar_ne hd rfl
      rw [digitChars, List.map_cons] at hnumber ⊢
      simp [exponent?, hmark, hnumber, hminus, hplus]
    · simp [exponent?, hmark, hnumber]
    · simp [exponent?, hmark, hnumber]

theorem exponentText_endsDigits {exponent : Option Int} {text : List Char} (h : ExponentText exponent text) :
    EndsDigits text := by
  cases h with
  | none => trivial
  | some hletter _ _ _ =>
    simp only [List.mem_cons, List.not_mem_nil, or_false] at hletter
    rcases hletter with rfl | rfl <;> rfl

/-- What is written as a numeral is read as it. -/
theorem ofChars?_of_text {n : Numeral} {text : List Char} (h : NumeralText n text) :
    ofChars? text = some n := by
  obtain ⟨negative, hwhole, hw, hf, hexponent⟩ := h
  rename_i whole fraction exponent tail
  have hread := exponent?_of_text hexponent
  have hends := exponentText_endsDigits hexponent
  have hall := digitChars_allDigits hw
  have hmap := map_digit_digitChars hw
  have hrest : ∀ negative, unsigned? negative (digitChars whole ++
      ((if fraction = [] then [] else '.' :: digitChars fraction) ++ tail)) =
        some ⟨negative, whole, fraction, exponent⟩ := by
    intro negative
    have hunsigned := fun rest after fraction => @unsigned?_append negative after fraction exponent
      (digitChars whole) rest hall (by rw [hmap]; exact hwhole)
    rw [hmap] at hunsigned
    by_cases hnil : fraction = []
    · subst hnil
      rw [if_pos rfl, List.nil_append]
      refine hunsigned tail tail [] hends ?_ hread
      unfold fraction?
      split
      · cases hexponent with
        | some hletter _ _ _ => simp at hletter
      · rfl
    · rw [if_neg hnil, List.cons_append]
      refine hunsigned _ tail fraction rfl ?_ hread
      have hpoint := fraction?_point (digitChars fraction) tail (digitChars_allDigits hf)
        (by simpa [digitChars] using hnil) hends
      rwa [map_digit_digitChars hf] at hpoint
  cases negative with
  | true => exact hrest true
  | false =>
    obtain ⟨d, r, rfl⟩ := List.exists_cons_of_ne_nil (show whole ≠ [] by rintro rfl; cases hwhole)
    have hminus : Nat.digitChar d ≠ '-' := digitChar_ne (hw d List.mem_cons_self) rfl
    have hunsigned := hrest false
    rw [digitChars, List.map_cons, List.cons_append] at hunsigned ⊢
    simp only [Bool.false_eq_true, ↓reduceIte, List.nil_append]
    unfold ofChars?
    split
    · rename_i heq
      exact absurd (List.cons.inj heq).1 hminus
    · exact hunsigned

end Numerals

def Token.isMark : Token → Bool
  | .arrayStart | .arrayEnd | .objectStart | .objectEnd | .colon | .comma => true
  | _ => false

section Words

open Lexer

variable {rest : List Char}

theorem scan_part {p : StringPart} {text : List Char} (h : PartText p text) (ps : List StringPart)
    (rest : List Char) : (Lexer.string ps).scan (text ++ rest) = (Lexer.string (p :: ps)).scan rest := by
  cases h with
  | plain hlow hquote hback =>
    refine scan_quiet ?_ rest
    simp [step, hquote, hback, Nat.not_lt.mpr hlow]
  | @letter d c h =>
    have hescaped : escaped? d = some c ∧ d ≠ 'u' := by
      simp only [escapes, List.mem_cons, Prod.mk.injEq, List.not_mem_nil, or_false] at h
      rcases h with h | h | h | h | h | h | h | h <;> obtain ⟨rfl, rfl⟩ := h <;> decide
    exact (partFor_escaped hescaped.1 hescaped.2).2 ps rest
  | @unit a b c d w x y z ha hb hc hd =>
    have hfirst : (hex ps 0 0).step a = some ([], hex ps 1 w) := by simp [step, ha]
    have hsecond : (hex ps 1 w).step b = some ([], hex ps 2 (w * 16 + x)) := by simp [step, hb]
    have hthird : (hex ps 2 (w * 16 + x)).step c = some ([], hex ps 3 ((w * 16 + x) * 16 + y)) := by
      simp [step, hc]
    have hlast : (hex ps 3 ((w * 16 + x) * 16 + y)).step d =
        some ([], Lexer.string (.unit (((w * 16 + x) * 16 + y) * 16 + z) :: ps)) := by
      simp [step, hd]
    calc (Lexer.string ps).scan (['\\', 'u', a, b, c, d] ++ rest)
      _ = (hex ps 0 0).scan (a :: b :: c :: d :: rest) := (scan_quiet rfl _).trans (scan_quiet rfl _)
      _ = _ := by rw [scan_quiet hfirst, scan_quiet hsecond, scan_quiet hthird, scan_quiet hlast]

theorem scan_parts {parts : List (StringPart × List Char)} (h : ∀ p ∈ parts, PartText p.1 p.2)
    (ps : List StringPart) (rest : List Char) :
    (Lexer.string ps).scan (parts.flatMap Prod.snd ++ rest) =
      (Lexer.string ((parts.map Prod.fst).reverse ++ ps)).scan rest := by
  induction parts generalizing ps with
  | nil => rfl
  | cons p r ih =>
    obtain ⟨hp, hr⟩ := List.forall_mem_cons.mp h
    rw [List.flatMap_cons, List.append_assoc, scan_part hp, ih hr]
    simp

/-- A token is read as it is written, if what follows can end it. Marks end by themselves. -/
theorem scan_token {t : Token} {text : List Char} (h : TokenText t text)
    (hrest : t.isMark = false → Ends rest) : idle.scan (text ++ rest) = (idle.scan rest).map (t :: ·) := by
  cases h with
  | @mark c _ h =>
    refine scan_mark ?_ rest
    simp only [marks, List.mem_cons, Prod.mk.injEq, List.not_mem_nil, or_false] at h
    rcases h with h | h | h | h | h | h <;> obtain ⟨rfl, rfl⟩ := h <;> rfl
  | null => exact scan_word rfl rfl rfl (hrest rfl)
  | true => exact scan_word rfl rfl rfl (hrest rfl)
  | false => exact scan_word rfl rfl rfl (hrest rfl)
  | number h => exact scan_numeral (ofChars?_of_text h) (hrest rfl)
  | @string parts h =>
    have hclose : (Lexer.string ((parts.map Prod.fst).reverse ++ [])).step '"' =
        some ([.string (parts.map Prod.fst)], idle) := by simp [step]
    rw [List.cons_append, List.append_assoc, scan_quiet (t := Lexer.string []) rfl, scan_parts h,
      List.singleton_append, scan_cons, hclose]
    rfl

theorem isSpace_of_blank {c : Char} (h : c ∈ [' ', '\t', '\n', '\r']) : isSpace c = true := by
  simp only [List.mem_cons, List.not_mem_nil, or_false] at h
  rcases h with rfl | rfl | rfl | rfl <;> rfl

theorem scan_blank {blank : List Char} (h : IsBlank blank) (rest : List Char) :
    idle.scan (blank ++ rest) = idle.scan rest := by
  induction blank with
  | nil => rfl
  | cons c r ih =>
    obtain ⟨hc, hr⟩ := List.forall_mem_cons.mp h
    rw [List.cons_append, scan_quiet (s := idle) (start_space (isSpace_of_blank hc)), ih hr]

end Words

section Separation

/-- Of two neighbours one is a mark, so that no two words or numerals stand side by side. -/
abbrev Separated (ts : List Token) : Prop := ts.IsChain fun s t => s.isMark ∨ t.isMark

variable {t : Token} {first second : List Token}

theorem Separated.cons_mark (ht : t.isMark) (h : Separated first) : Separated (t :: first) :=
  List.isChain_cons.mpr ⟨fun _ _ => .inl ht, h⟩

theorem Separated.append_mark (hf : Separated first) (ht : t.isMark) (hs : Separated second) :
    Separated (first ++ t :: second) :=
  List.isChain_append.mpr ⟨hf, hs.cons_mark ht, fun _ _ u hu => by
    obtain rfl := Option.some.inj hu
    exact .inr ht⟩

mutual

theorem separated_tokens : ∀ d : Document, Separated d.tokens
  | .null => .singleton _
  | .bool _ => .singleton _
  | .number _ => .singleton _
  | .string _ => .singleton _
  | .array items => ((separated_itemTokens items).append_mark rfl .nil).cons_mark rfl
  | .object members => ((separated_memberTokens members).append_mark rfl .nil).cons_mark rfl

theorem separated_itemTokens : ∀ items : List Document, Separated (Document.itemTokens items)
  | [] => .nil
  | [d] => separated_tokens d
  | d :: e :: r => (separated_tokens d).append_mark rfl (separated_itemTokens (e :: r))

theorem separated_memberTokens : ∀ members : List (Key × Document), Separated (Document.memberTokens members)
  | [] => .nil
  | [m] => separated_memberToken m
  | m :: n :: r => (separated_memberToken m).append_mark rfl (separated_memberTokens (n :: r))

theorem separated_memberToken : ∀ m : Key × Document, Separated (Document.memberToken m)
  | (_, d) => Separated.append_mark (.singleton _) rfl (separated_tokens d)

end

end Separation

section Reading

open Lexer

theorem TokenText.exists_mark {t : Token} {text : List Char} (h : TokenText t text) (ht : t.isMark) :
    ∃ c, text = [c] ∧ (mark? c).isSome := by
  cases h with
  | @mark c _ h =>
    refine ⟨c, rfl, ?_⟩
    simp only [marks, List.mem_cons, Prod.mk.injEq, List.not_mem_nil, or_false] at h
    rcases h with h | h | h | h | h | h <;> obtain ⟨rfl, -⟩ := h <;> rfl
  | _ => cases ht

/-- White space ends a token, and so does the mark that comes next. -/
theorem ends_of_separated {w : Word} {words : List Word}
    (h : Separated ((w :: words).map Word.token)) (hw : w.token.isMark = false) :
    Ends (w.blank ++ wordsText words) := by
  cases hb : w.blank with
  | cons c r =>
    have hc := w.isBlank c (hb ▸ List.mem_cons_self)
    exact .inr (isSpace_of_blank hc)
  | nil =>
    cases words with
    | nil => trivial
    | cons v r =>
      have hv : v.token.isMark := by
        have := (List.isChain_cons_cons.mp h).1
        simpa [hw] using this
      obtain ⟨c, hc, hmark⟩ := v.writes.exists_mark hv
      rw [List.nil_append, wordsText, List.flatMap_cons, hc]
      exact .inl hmark

theorem scan_words {words : List Word} (h : Separated (words.map Word.token)) :
    idle.scan (wordsText words) = some (words.map Word.token) := by
  induction words with
  | nil => rfl
  | cons w r ih =>
    have hr : idle.scan (w.blank ++ wordsText r) = some (r.map Word.token) := by
      rw [scan_blank w.isBlank, ih h.tail]
    have hw := scan_token w.writes (ends_of_separated h)
    rw [wordsText, List.flatMap_cons, List.append_assoc]
    exact hw.trans (by rw [hr]; rfl)

/-- Whatever the layout, the document is what is read. -/
theorem Layout.read? {d : Document} (l : Layout d) : Document.read? l.body = some d := by
  have hwords : Separated (l.words.map Word.token) := l.tokens_eq ▸ separated_tokens d
  refine Document.read?_of_tokens? ?_
  rw [body, tokens?_encode, text, scan_blank l.isBlank, scan_words hwords, l.tokens_eq]

end Reading

section Existence

/-- A document that has a layout. -/
def Writable (d : Document) : Prop := ∀ t ∈ d.tokens, ∃ text, TokenText t text

variable {t : Token} {items : List Document} {members : List (Key × Document)}

theorem Layout.writable {d : Document} (l : Layout d) : Writable d := by
  intro t ht
  rw [← l.tokens_eq] at ht
  obtain ⟨w, -, rfl⟩ := List.mem_map.mp ht
  exact ⟨w.text, w.writes⟩

theorem exists_words {ts : List Token} (h : ∀ t ∈ ts, ∃ text, TokenText t text) :
    ∃ words : List Word, words.map Word.token = ts := by
  induction ts with
  | nil => exact ⟨[], rfl⟩
  | cons t r ih =>
    obtain ⟨⟨text, ht⟩, hr⟩ := List.forall_mem_cons.mp h
    obtain ⟨words, rfl⟩ := ih hr
    exact ⟨⟨t, text, [], ht, fun _ hc => by cases hc⟩ :: words, rfl⟩

theorem Writable.layout {d : Document} (h : Writable d) : Nonempty (Layout d) := by
  obtain ⟨words, hwords⟩ := exists_words h
  exact ⟨⟨[], words, fun _ hc => (by cases hc), hwords⟩⟩

theorem exists_mark {c : Char} (h : (c, t) ∈ marks) : ∃ text, TokenText t text := ⟨[c], .mark h⟩

theorem writable_itemTokens : ∀ items : List Document,
    (∀ t ∈ Document.itemTokens items, ∃ text, TokenText t text) ↔ ∀ d ∈ items, Writable d
  | [] => by simp [Document.itemTokens]
  | [d] => by rw [Document.itemTokens, List.forall_mem_singleton, Writable]
  | d :: e :: r => by
    have hcomma : ∃ text, TokenText .comma text := exists_mark (c := ',') (by decide)
    rw [Document.itemTokens, List.forall_mem_append, List.forall_mem_cons, writable_itemTokens (e :: r),
      List.forall_mem_cons (l := e :: r), Writable, and_iff_right hcomma]

theorem writable_memberToken {m : Key × Document} :
    (∀ t ∈ Document.memberToken m, ∃ text, TokenText t text) ↔
      (∃ text, TokenText (.string m.1) text) ∧ Writable m.2 := by
  have hcolon : ∃ text, TokenText .colon text := exists_mark (c := ':') (by decide)
  rw [Document.memberToken, List.forall_mem_cons, List.forall_mem_cons, and_iff_right hcolon, Writable]

theorem writable_memberTokens : ∀ members : List (Key × Document),
    (∀ t ∈ Document.memberTokens members, ∃ text, TokenText t text) ↔
      ∀ m ∈ members, (∃ text, TokenText (.string m.1) text) ∧ Writable m.2
  | [] => by simp [Document.memberTokens]
  | [m] => by rw [Document.memberTokens, List.forall_mem_singleton, writable_memberToken]
  | m :: n :: r => by
    have hcomma : ∃ text, TokenText .comma text := exists_mark (c := ',') (by decide)
    rw [Document.memberTokens, List.forall_mem_append, List.forall_mem_cons, writable_memberTokens (n :: r),
      List.forall_mem_cons (l := n :: r), writable_memberToken, and_iff_right hcomma]

theorem writable_array : Writable (.array items) ↔ ∀ d ∈ items, Writable d := by
  have hstart : ∃ text, TokenText .arrayStart text := exists_mark (c := '[') (by decide)
  have hend : ∃ text, TokenText .arrayEnd text := exists_mark (c := ']') (by decide)
  rw [Writable, Document.tokens, List.forall_mem_append, List.forall_mem_cons, List.forall_mem_singleton,
    writable_itemTokens, and_iff_right hstart, and_iff_left hend]

theorem writable_object : Writable (.object members) ↔
    ∀ m ∈ members, (∃ text, TokenText (.string m.1) text) ∧ Writable m.2 := by
  have hstart : ∃ text, TokenText .objectStart text := exists_mark (c := '\x7b') (by decide)
  have hend : ∃ text, TokenText .objectEnd text := exists_mark (c := '\x7d') (by decide)
  rw [Writable, Document.tokens, List.forall_mem_append, List.forall_mem_cons, List.forall_mem_singleton,
    writable_memberTokens, and_iff_right hstart, and_iff_left hend]

end Existence

end AnnotationReport.Json
