import AnnotationReport.Proofs.Text.Lists
import AnnotationReport.Proofs.Text.Utf8
import AnnotationReport.Proofs.Url.Addresses
import AnnotationReport.Proofs.Url.Decoding
import AnnotationReport.Url.Parser

/-! # Hosts are read back

Whatever is read as a host is written in characters that neither end an authority nor part it, and
that text is read as the same host.
-/
namespace AnnotationReport.Url

theorem encode_ne_nil {set : EncodeSet} {text : List Char} (h : text ≠ []) : encode set text ≠ [] := by
  intro he
  obtain ⟨c, hc⟩ := List.exists_mem_of_ne_nil _ h
  have hnil : encodeChar set c = [] := List.flatMap_eq_nil_iff.mp he c hc
  unfold encodeChar at hnil
  split at hnil
  · obtain ⟨b, hb⟩ := List.exists_mem_of_ne_nil _ (Text.Utf8.encodeChar_ne_nil c)
    exact absurd (List.flatMap_eq_nil_iff.mp hnil b hb) (List.cons_ne_nil _ _)
  · cases hnil

/-- The characters of ASCII that are neither blanks nor controls. -/
def isVisible (c : Char) : Bool := 0x20 < c.toNat && c.toNat < 0x7F

/-- What may stand in a host: nothing that ends an authority or the credentials in it, or names a drive. -/
def isHostChar (c : Char) : Bool := isVisible c && !endsAuthority true c && c != '@' && c != '|'

namespace Host

section Splitting

/-- A text in which a colon stands within square brackets or not at all. -/
inductive Enclosed : List Char → Prop
  | bare {t : List Char} : ':' ∉ t → '[' ∉ t → Enclosed t
  | brackets {t : List Char} : '[' ∉ t → ']' ∉ t → Enclosed ('[' :: t ++ [']'])

variable {t rest : List Char}

theorem splitHost_of_starts (h : rest = [] ∨ rest.head? = some ':') : splitHost false rest = ([], rest) := by
  match rest with
  | [] => rfl
  | c :: r =>
    rcases h with h | h
    · cases h
    · obtain rfl := Option.some.inj h
      rfl

theorem splitHost_bare (hcolon : ':' ∉ t) (hopen : '[' ∉ t) (h : rest = [] ∨ rest.head? = some ':') :
    splitHost false (t ++ rest) = (t, rest) := by
  induction t with
  | nil => exact splitHost_of_starts h
  | cons c t ih =>
    simp only [List.mem_cons, not_or] at hcolon hopen
    have hc : decide (c = '[') = false := decide_eq_false (Ne.symm hopen.1)
    rw [List.cons_append, splitHost, if_neg (by simpa using Ne.symm hcolon.1), hc]
    simp [ih hcolon.2 hopen.2]

theorem splitHost_inside (hclose : ']' ∉ t) (h : rest = [] ∨ rest.head? = some ':') :
    splitHost true (t ++ ']' :: rest) = (t ++ [']'], rest) := by
  induction t with
  | nil => simp [splitHost, splitHost_of_starts h]
  | cons c t ih =>
    simp only [List.mem_cons, not_or] at hclose
    have hc : (c != ']') = true := by simpa using Ne.symm hclose.1
    rw [List.cons_append, splitHost, if_neg (by simp), hc]
    simp [ih hclose.2]

/-- The host ends where a port may begin. -/
theorem Enclosed.splitHost (ht : Enclosed t) (h : rest = [] ∨ rest.head? = some ':') :
    splitHost false (t ++ rest) = (t, rest) := by
  cases ht with
  | bare hcolon hopen => exact splitHost_bare hcolon hopen h
  | @brackets t hopen hclose =>
    have hinside := splitHost_inside hclose h
    rw [List.cons_append, List.cons_append, List.append_assoc, List.singleton_append, Url.splitHost,
      if_neg (by decide)]
    simp [hinside]

end Splitting

/-- A host whose text stands in an authority and is read as that host. -/
structure Steady (read : List Char → Except Error Host) (h : Host) : Prop where
  read_text : read h.text = .ok h
  ne_nil : h.text ≠ []
  visible : ∀ c ∈ h.text, isHostChar c
  enclosed : Enclosed h.text

section Brackets

variable {text : List Char} {h : Host}

theorem ascii_of_hexValue? {c : Char} (h : (Text.hexValue? c).isSome) : c.toNat < 0x80 := by
  unfold Text.hexValue? at h
  split at h
  · exact Text.Utf8.ascii_of_isAlphanum (Bool.or_eq_true_iff.mpr (.inr ‹_›))
  · split at h
    · rename_i hd
      exact Nat.lt_of_le_of_lt hd.2 (by decide)
    · split at h
      · rename_i hd
        exact Nat.lt_of_le_of_lt hd.2 (by decide)
      · cases h

theorem isHostChar_of_hexValue? {c : Char} (h : (Text.hexValue? c).isSome) : isHostChar c := by
  have hall : ∀ n : Fin 128, (Text.hexValue? (Char.ofNat n)).isSome → isHostChar (Char.ofNat n) := by
    decide
  exact Text.Utf8.forall_ascii (p := fun c => (Text.hexValue? c).isSome → isHostChar c) hall
    (ascii_of_hexValue? h) h

/-- An address is written in hexadecimal digits and colons. -/
theorem mem_ipv6_text {ps : List Nat} {c : Char} (hc : c ∈ Ipv6.text ps) :
    c = ':' ∨ (Text.hexValue? c).isSome := by
  have hcolons : ∀ qs : List Nat, c ∈ Ipv6.colons qs → c = ':' ∨ (Text.hexValue? c).isSome := by
    intro qs hm
    induction qs with
    | nil => cases hm
    | cons q qs ih =>
      cases qs with
      | nil =>
        rw [Ipv6.colons_singleton] at hm
        exact .inr (Ipv6.hexValue?_of_mem hm)
      | cons r qs =>
        rw [Ipv6.colons_cons_cons] at hm
        rcases List.mem_append.mp hm with hm | hm
        · exact .inr (Ipv6.hexValue?_of_mem hm)
        · rcases List.mem_cons.mp hm with hm | hm
          · exact .inl hm
          · exact ih hm
  unfold Ipv6.text at hc
  dsimp only at hc
  split at hc
  · exact hcolons _ hc
  · rcases List.mem_append.mp hc with hc | hc
    · rcases List.mem_append.mp hc with hc | hc
      · exact hcolons _ hc
      · simp only [List.mem_cons, List.not_mem_nil, or_false, or_self] at hc
        exact .inl hc
    · exact hcolons _ hc

theorem steady_ipv6 {read : List Char → Except Error Host}
    (hread : ∀ t, t.head? = some '[' → read t = bracketed t) {ps : List Nat} (hps : Ipv6.IsAddress ps) :
    Steady read (.ipv6 ps) := by
  have hchars : ∀ c ∈ Ipv6.text ps, isHostChar c ∧ c ≠ '[' ∧ c ≠ ']' := by
    intro c hc
    rcases mem_ipv6_text hc with rfl | hc
    · decide
    · refine ⟨isHostChar_of_hexValue? hc, ?_, ?_⟩
      · rintro rfl
        cases hc
      · rintro rfl
        cases hc
  refine ⟨?_, List.cons_ne_nil _ _, ?_, ?_⟩
  · have hlast : (text (.ipv6 ps)).getLast? = some ']' := List.getLast?_concat
    have hinner : ((text (.ipv6 ps)).drop 1).dropLast = Ipv6.text ps := by
      simp [Host.text]
    rw [hread _ rfl, bracketed, if_pos hlast, hinner, Ipv6.ofText?_text hps]
  · simp only [Host.text, List.cons_append, List.forall_mem_cons, List.forall_mem_append,
      List.not_mem_nil, false_implies, implies_true, and_true]
    exact ⟨by decide, fun c hc => (hchars c hc).1, by decide⟩
  · exact .brackets (fun hm => (hchars _ hm).2.1 rfl) fun hm => (hchars _ hm).2.2 rfl

theorem bracketed_eq_ok (hb : bracketed text = .ok h) : ∃ ps, h = .ipv6 ps ∧ Ipv6.IsAddress ps := by
  unfold bracketed at hb
  split at hb
  · split at hb
    · rename_i ps hps
      obtain rfl := Except.ok.inj hb
      exact ⟨ps, rfl, Ipv6.isAddress_of_ofText? hps⟩
    · cases hb
  · cases hb

end Brackets

section Names

variable {text domain : List Char} {host : Host} {c : Char}

theorem of_allowedInDomain (hc : allowedInDomain c) : isHostChar c ∧ c ∉ ['%', ':', '['] := by
  simp only [allowedInDomain, separators, Bool.and_eq_true, decide_eq_true_eq, bne_iff_ne,
    Bool.not_eq_true', List.contains_eq_mem, decide_eq_false_iff_not, List.mem_cons,
    List.not_mem_nil, or_false, not_or] at hc
  obtain ⟨⟨⟨hlow, hhigh⟩, hpercent⟩, -, hhash, hslash, hcolon, -, -, hmark, hat, hopen, hback, -, -, hbar⟩ := hc
  simp [isHostChar, isVisible, endsAuthority, isSlash, endsPath, *]

theorem decode_eq_encode (h : '%' ∉ text) : decode text = Text.Utf8.encode text := by
  induction text with
  | nil => rfl
  | cons c r ih =>
    simp only [List.mem_cons, not_or] at h
    rw [decode_cons (Ne.symm h.1), ih h.2]
    rfl

theorem isPlain_of_lowerDomain? (h : isPlain text) (hd : lowerDomain? text = some domain) :
    isPlain domain := by
  have hdomain := lowerDomain?_allowed hd
  obtain ⟨-, rfl⟩ : text.all allowedInDomain ∧ text.map Char.toLower = domain := by
    simpa [lowerDomain?] using hd
  rw [isPlain, Bool.and_eq_true, map_toLower_of_domain hdomain]
  refine ⟨List.all_eq_true.mpr fun c hc => ?_, (Bool.and_eq_true_iff.mp h).2⟩
  exact decide_eq_true (toNat_lt_of_allowedInDomain (hdomain c hc).1)

/-- Encoded labels begin with a letter that addresses do not have. -/
theorem isPlain_of_notMem (h : ∀ c ∈ domain, allowedInDomain c ∧ c.toLower = c) (hx : 'x' ∉ domain) :
    isPlain domain := by
  rw [isPlain, Bool.and_eq_true, map_toLower_of_domain h]
  refine ⟨List.all_eq_true.mpr fun c hc => ?_, List.all_eq_true.mpr fun label hlabel => ?_⟩
  · exact decide_eq_true (toNat_lt_of_allowedInDomain (h c hc).1)
  · rw [Bool.not_eq_true', ← Bool.not_eq_true, List.isPrefixOf_iff_prefix]
    intro hmark
    exact hx (Text.forall_mem_splitOnP hlabel 'x' (hmark.subset List.mem_cons_self)).1

variable [Idna]

/-- A text that domain names have once their case is settled. -/
structure IsDomain (domain : List Char) : Prop where
  chars : ∀ c ∈ domain, allowedInDomain c ∧ c.toLower = c
  settled : isPlain domain = true ∨ Idna.toAscii domain = some domain

theorem isDomain_of_domain? {bytes : List UInt8} (h : domain? bytes = some domain) : IsDomain domain := by
  obtain ⟨t, -, ht⟩ := Option.bind_eq_some_iff.mp h
  split at ht
  · exact ⟨lowerDomain?_allowed ht, .inl (isPlain_of_lowerDomain? ‹_› ht)⟩
  · exact ⟨Idna.allowed ht, .inr (Idna.settled ht)⟩

theorem domain?_decode (h : IsDomain domain) : domain? (decode domain) = some domain := by
  have hpercent : '%' ∉ domain := fun hm => (of_allowedInDomain (h.chars _ hm).1).2 (by decide)
  rw [domain?, decode_eq_encode hpercent, Text.Utf8.decode?_encode, Option.bind_some]
  split
  · exact lowerDomain?_of_allowed h.chars
  · exact h.settled.resolve_left ‹_›

theorem ofWeb_domain (h : IsDomain domain) (hne : domain ≠ [])
    (hhost : (if Ipv4.isNumeric domain then (Ipv4.ofText? domain).map .ipv4
      else some (.name domain)) = some host) : ofWeb domain = .ok host := by
  have hopen : ¬domain.head? = some '[' := by
    intro hhead
    exact (of_allowedInDomain (h.chars _ (List.mem_of_head? hhead)).1).2 (by decide)
  have hempty : ¬domain.isEmpty = true := by simpa using hne
  simp only [ofWeb, if_neg hopen, domain?_decode h, if_neg hempty]
  split at hhost
  · rename_i hnumeric
    obtain ⟨a, ha, rfl⟩ := Option.map_eq_some_iff.mp hhost
    simp only [if_pos hnumeric, ha]
  · rename_i hnumeric
    obtain rfl := Option.some.inj hhost
    simp only [if_neg hnumeric]

theorem steady_of_isDomain (h : IsDomain host.text) (hne : host.text ≠ [])
    (hread : ofWeb host.text = .ok host) : Steady ofWeb host where
  read_text := hread
  ne_nil := hne
  visible c hc := (of_allowedInDomain (h.chars c hc).1).1
  enclosed := .bare (fun hm => (of_allowedInDomain (h.chars _ hm).1).2 (by decide))
    fun hm => (of_allowedInDomain (h.chars _ hm).1).2 (by decide)

theorem isDomain_ipv4_text (a : Nat) : IsDomain (Ipv4.text a) := by
  have hall : ∀ n : Fin 128, (Char.ofNat n).isDigit →
      allowedInDomain (Char.ofNat n) ∧ (Char.ofNat n).toLower = Char.ofNat n ∧ Char.ofNat n ≠ 'x' := by
    decide
  have hdigit : ∀ n, ∀ c ∈ Text.decimal n, allowedInDomain c ∧ c.toLower = c ∧ c ≠ 'x' := by
    intro n c hc
    have hd := Ipv4.isDigit_decimal hc
    have hlt := Text.Utf8.ascii_of_isAlphanum (Bool.or_eq_true_iff.mpr (.inr hd))
    exact Text.Utf8.forall_ascii (p := fun c => c.isDigit → allowedInDomain c ∧ c.toLower = c ∧ c ≠ 'x')
      hall hlt hd
  have hdot : allowedInDomain '.' ∧ '.'.toLower = '.' ∧ '.' ≠ 'x' := by decide
  have hchars : ∀ c ∈ Ipv4.text a, allowedInDomain c ∧ c.toLower = c ∧ c ≠ 'x' := by
    simp only [Ipv4.text, List.map_cons, List.map_nil, List.intercalate_cons_cons,
      List.intercalate_singleton, List.forall_mem_append, List.forall_mem_singleton]
    exact ⟨⟨hdigit _, hdot⟩, ⟨hdigit _, hdot⟩, ⟨hdigit _, hdot⟩, hdigit _⟩
  have hdomain : ∀ c ∈ Ipv4.text a, allowedInDomain c ∧ c.toLower = c := fun c hc =>
    ⟨(hchars c hc).1, (hchars c hc).2.1⟩
  exact ⟨hdomain, .inl (isPlain_of_notMem hdomain fun hm => (hchars 'x' hm).2.2 rfl)⟩

/-- A host of the web is read back. -/
theorem steady_of_ofWeb (h : ofWeb text = .ok host) : Steady ofWeb host := by
  unfold ofWeb at h
  split at h
  · obtain ⟨ps, rfl, hps⟩ := bracketed_eq_ok h
    exact steady_ipv6 (fun t ht => if_pos ht) hps
  · split at h
    · cases h
    · rename_i domain hdomain
      have hd := isDomain_of_domain? hdomain
      split at h
      · cases h
      · rename_i hempty
        have hne : domain ≠ [] := by simpa using hempty
        split at h
        · split at h
          · rename_i a ha
            obtain rfl := Except.ok.inj h
            have htext : Ipv4.text a ≠ [] := by
              intro he
              have hnumeric := Ipv4.isNumeric_text a
              rw [he] at hnumeric
              revert hnumeric
              decide
            refine steady_of_isDomain (isDomain_ipv4_text a) htext ?_
            refine ofWeb_domain (isDomain_ipv4_text a) htext ((if_pos (Ipv4.isNumeric_text a)).trans ?_)
            rw [Host.text, Ipv4.ofText?_text (Ipv4.ofText?_lt ha), Option.map_some]
          · cases h
        · rename_i hnumeric
          obtain rfl := Except.ok.inj h
          exact steady_of_isDomain hd hne (ofWeb_domain hd hne (if_neg hnumeric))

end Names

section Elsewhere

variable {text : List Char} {host : Host}

theorem encode_controls_clean {c : Char} (h : text.all allowedElsewhere)
    (hc : c ∈ encode EncodeSet.controls text) :
    allowedElsewhere c ∧ EncodeSet.controls c = false := by
  have hhex : hexDigits.all (fun d => allowedElsewhere d && !EncodeSet.controls d) = true := by decide
  rcases mem_encode hc with ⟨hm, hset⟩ | rfl | hm
  · exact ⟨List.all_eq_true.mp h c hm, hset⟩
  · decide
  · simpa using List.all_eq_true.mp hhex c hm

theorem of_allowedElsewhere {c : Char} (h : allowedElsewhere c) (hc : EncodeSet.controls c = false) :
    isHostChar c ∧ c ≠ ':' ∧ c ≠ '[' := by
  simp only [allowedElsewhere, separators, EncodeSet.controls, Bool.and_eq_true, bne_iff_ne,
    Bool.not_eq_true', List.contains_eq_mem, decide_eq_false_iff_not, List.mem_cons,
    List.not_mem_nil, or_false, not_or, Bool.or_eq_false_iff, Nat.not_lt] at h hc
  obtain ⟨-, hspace, hhash, hslash, hcolon, -, -, hmark, hat, hopen, hback, -, -, hbar⟩ := h
  have hne : c.toNat ≠ 0x20 := fun he => hspace (Char.toNat_inj.mp he)
  have hlow : 0x20 < c.toNat := by omega
  have hhigh : c.toNat < 0x7F := by omega
  simp [isHostChar, isVisible, endsAuthority, isSlash, endsPath, *]

/-- A host under any other scheme is read back unless it is empty. -/
theorem steady_of_ofOther (h : ofOther text = .ok host) (hne : text ≠ []) : Steady ofOther host := by
  unfold ofOther at h
  split at h
  · obtain ⟨ps, rfl, hps⟩ := bracketed_eq_ok h
    exact steady_ipv6 (fun t ht => if_pos ht) hps
  · split at h
    · rename_i hall
      obtain rfl := Except.ok.inj h
      have hclean : ∀ c ∈ encode EncodeSet.controls text,
          allowedElsewhere c ∧ EncodeSet.controls c = false := fun c => encode_controls_clean hall
      have hchars : ∀ c ∈ encode EncodeSet.controls text, isHostChar c ∧ c ≠ ':' ∧ c ≠ '[' :=
        fun c hc => of_allowedElsewhere (hclean c hc).1 (hclean c hc).2
      refine ⟨?_, ?_, fun c hc => (hchars c hc).1, .bare (fun hm => (hchars _ hm).2.1 rfl)
        fun hm => (hchars _ hm).2.2 rfl⟩
      · have hopen : ¬(encode EncodeSet.controls text).head? = some '[' := by
          intro hhead
          exact (hchars _ (List.mem_of_head? hhead)).2.2 rfl
        have hself : encode EncodeSet.controls (encode EncodeSet.controls text) =
            encode EncodeSet.controls text := encode_eq_self fun c hc => (hclean c hc).2
        rw [Host.text, ofOther, if_neg hopen, if_pos (List.all_eq_true.mpr fun c hc => (hclean c hc).1),
          hself]
      · exact encode_ne_nil hne
    · cases h

end Elsewhere
end Host
end AnnotationReport.Url
