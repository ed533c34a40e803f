import AnnotationReport.Proofs.Url.Hosts
import Mathlib.Data.List.TakeWhile

/-! # Authorities are read back

Credentials, host and port keep the marks between them out of their texts, so an authority that was
read is read back from its text, and nothing is left over.
-/
namespace AnnotationReport.Url

section Clean

variable {set : EncodeSet} {c : Char}

/-- What a set encodes no longer stands in a text that it has encoded. -/
theorem clean_encode (hpercent : set '%' = false) (hhex : hexDigits.all (!set ·) = true)
    (text : List Char) : ∀ c ∈ encode set text, set c = false := by
  intro c hc
  rcases mem_encode hc with ⟨-, h⟩ | rfl | h
  · exact h
  · exact hpercent
  · simpa using List.all_eq_true.mp hhex c h

theorem isVisible_of_controls (h : EncodeSet.controls c = false) (hspace : c ≠ ' ') : isVisible c := by
  simp only [EncodeSet.controls, Bool.or_eq_false_iff, decide_eq_false_iff_not, Nat.not_lt] at h
  have hne : c.toNat ≠ 0x20 := fun he => hspace (Char.toNat_inj.mp he)
  simp only [isVisible, Bool.and_eq_true, decide_eq_true_eq]
  omega

theorem of_including {chars : List Char} (h : set.including chars c = false) :
    set c = false ∧ c ∉ chars := by
  simpa [EncodeSet.including] using h

theorem of_clean_fragment (h : EncodeSet.fragment c = false) : isVisible c := by
  obtain ⟨hcontrols, hchars⟩ := of_including h
  refine isVisible_of_controls hcontrols ?_
  rintro rfl
  exact hchars List.mem_cons_self

theorem of_clean_path (h : EncodeSet.path c = false) : isVisible c ∧ endsPath c = false := by
  obtain ⟨hfragment, hchars⟩ := of_including h
  simp only [List.mem_cons, List.not_mem_nil, or_false, not_or] at hchars
  exact ⟨of_clean_fragment hfragment, by simp [endsPath, hchars]⟩

theorem of_clean_userinfo (h : EncodeSet.userinfo c = false) : isHostChar c ∧ c ≠ ':' := by
  obtain ⟨hpath, hchars⟩ := of_including h
  obtain ⟨hvisible, hends⟩ := of_clean_path hpath
  simp only [List.mem_cons, List.not_mem_nil, or_false, not_or] at hchars
  obtain ⟨hslash, hcolon, -, -, hat, -, hback, -, -, hbar⟩ := hchars
  simp [isHostChar, hvisible, endsAuthority, isSlash, hends, hslash, hat, hback, hcolon, hbar]

end Clean

section Credentials

/-- Credentials as they are written. -/
structure Credentials.Steady (c : Credentials) : Prop where
  user : ∀ d ∈ c.user, EncodeSet.userinfo d = false
  password : ∀ p, c.password = some p → p ≠ [] ∧ ∀ d ∈ p, EncodeSet.userinfo d = false

def Credentials.inner (c : Credentials) : List Char := c.user ++ c.password.elim [] (':' :: ·)

theorem Credentials.text_eq (c : Credentials) :
    c.text = if c = nobody then [] else c.inner ++ ['@'] := rfl

theorem Credentials.steady_ofText (text : List Char) : (Credentials.ofText text).Steady := by
  have hclean := clean_encode (show EncodeSet.userinfo '%' = false by decide)
    (show hexDigits.all (!EncodeSet.userinfo ·) = true by decide)
  refine ⟨hclean _, fun p hp => ?_⟩
  unfold Credentials.ofText at hp
  dsimp only at hp
  split at hp
  · cases hp
  · rename_i hne
    obtain rfl := Option.some.inj hp
    exact ⟨encode_ne_nil (by simpa using hne), hclean _⟩

variable {c : Credentials}

theorem Credentials.ofText_inner (h : c.Steady) : Credentials.ofText c.inner = c := by
  have hcolon : ∀ d ∈ c.user, (d != ':') = true := by
    intro d hd
    simpa using (of_clean_userinfo (h.user d hd)).2
  obtain ⟨user, password⟩ := c
  have huser := encode_eq_self h.user
  cases password with
  | none =>
    have htake : user.takeWhile (· != ':') = user := List.takeWhile_eq_self_iff.mpr hcolon
    have hdrop : user.dropWhile (· != ':') = [] := List.dropWhile_eq_nil_iff.mpr hcolon
    simp [Credentials.ofText, Credentials.inner, htake, hdrop, huser]
  | some p =>
    obtain ⟨hne, hp⟩ := h.password p rfl
    have hself := encode_eq_self hp
    have hempty : p.isEmpty = false := by simpa using hne
    have htake : (user ++ ':' :: p).takeWhile (· != ':') = user := by
      rw [List.takeWhile_append_of_pos hcolon]
      simp
    have hdrop : (user ++ ':' :: p).dropWhile (· != ':') = ':' :: p := by
      rw [List.dropWhile_append_of_pos hcolon]
      simp
    simp [Credentials.ofText, Credentials.inner, htake, hdrop, huser, hself, hempty]

theorem Credentials.isHostChar_inner (h : c.Steady) : ∀ d ∈ c.inner, d = ':' ∨ isHostChar d := by
  intro d hd
  rcases List.mem_append.mp hd with hd | hd
  · exact .inr (of_clean_userinfo (h.user d hd)).1
  · cases hp : c.password with
    | none => simp [hp] at hd
    | some p =>
      rw [hp, Option.elim_some] at hd
      rcases List.mem_cons.mp hd with hd | hd
      · exact .inl hd
      · exact .inr (of_clean_userinfo ((h.password p hp).2 d hd)).1

end Credentials

section Places

variable {mark : Char} {before after text : List Char}

theorem splitLast?_eq_none (h : mark ∉ text) : splitLast? mark text = none := by
  induction text with
  | nil => rfl
  | cons c r ih =>
    simp only [List.mem_cons, not_or] at h
    simp [splitLast?, ih h.2, Ne.symm h.1]

theorem splitLast?_append (h : mark ∉ after) :
    splitLast? mark (before ++ mark :: after) = some (before, after) := by
  induction before with
  | nil => simp [splitLast?, splitLast?_eq_none h]
  | cons c r ih => simp [splitLast?, ih]

theorem eq_of_splitLast? (h : splitLast? mark text = some (before, after)) :
    text = before ++ mark :: after := by
  induction text generalizing before with
  | nil => cases h
  | cons c r ih =>
    unfold splitLast? at h
    split at h
    · rename_i b a hr
      obtain ⟨rfl, rfl⟩ := Prod.mk.inj (Option.some.inj h)
      rw [ih hr, List.cons_append]
    · split at h
      · rename_i hc
        obtain ⟨rfl, rfl⟩ := Prod.mk.inj (Option.some.inj h)
        rw [hc, List.nil_append]
      · cases h

theorem splitHost_append (inside : Bool) (text : List Char) :
    (splitHost inside text).1 ++ (splitHost inside text).2 = text := by
  induction text generalizing inside with
  | nil => rfl
  | cons c r ih =>
    unfold splitHost
    split
    · rfl
    · exact congrArg (c :: ·) (ih _)

/-- The text of a port after its colon. -/
def portText (port : Option Nat) : List Char := port.elim [] fun p => ':' :: Text.decimal p

theorem portText_starts (port : Option Nat) : portText port = [] ∨ (portText port).head? = some ':' := by
  cases port with
  | none => exact .inl rfl
  | some p => exact .inr rfl

theorem readPort_decimal {p : Nat} (h : p < 65536) : readPort (Text.decimal p) = .ok (some p, []) := by
  have hdigits : ∀ c ∈ Text.decimal p, c.isDigit := fun c hc => Ipv4.isDigit_decimal hc
  have htake := List.takeWhile_eq_self_iff.mpr hdigits
  have hdrop := List.dropWhile_eq_nil_iff.mpr hdigits
  have hnumber : Text.number? 10 (Text.decimal p) = some p :=
    Text.number?_toDigits (by decide) (by decide) p
  have hne : Text.decimal p ≠ [] := Nat.toDigits_ne_nil
  simp [readPort, htake, hdrop, hnumber, h, hne]

theorem readPort_eq_ok {port : Option Nat} {left : List Char} (h : readPort text = .ok (port, left)) :
    (∀ p, port = some p → p < 65536) ∧ (left = [] ∨ '\\' ∈ text) := by
  unfold readPort at h
  dsimp only at h
  split at h
  · cases h
  · rename_i n _
    split at h
    · rename_i hn
      obtain ⟨rfl, rfl⟩ := Prod.mk.inj (Except.ok.inj h)
      refine ⟨fun p hp => ?_, ?_⟩
      · split at hp
        · cases hp
        · obtain rfl := Option.some.inj hp
          exact hn.1
      · rcases hn.2 with hempty | hback
        · exact .inl (by simpa using hempty)
        · exact .inr (List.dropWhile_sublist _ |>.subset (List.mem_of_head? hback))
    · cases h

end Places

section Authorities

variable [Idna]

/-- How the host of an authority is read. -/
def readHost (kind : SchemeKind) : List Char → Except Error Host :=
  if kind = .other then Host.ofOther else Host.ofWeb

/-- An authority as it is written under a scheme. -/
structure Authority.Steady (scheme : List Char) (a : Authority) : Prop where
  credentials : a.credentials.Steady
  host : ∀ h, a.host = some h → Host.Steady (readHost (schemeKind scheme)) h
  port : ∀ p, a.port = some p → p < 65536 ∧ some p ≠ defaultPort? scheme
  alone : a.host = none → schemeKind scheme ≠ .web ∧ a = ⟨.nobody, none, none⟩

variable {scheme text left user place hostText rest : List Char} {atEnd : Bool} {a : Authority}

/-- The port in what follows a host, and what is left over. -/
def readAfterHost (rest : List Char) : Except Error (Option Nat × List Char) :=
  if rest = [] then .ok (none, []) else readPort (rest.drop 1)

/-- An authority with its text taken apart into credentials, host and port. -/
theorem readAuthority_eq (hfile : schemeKind scheme ≠ .file)
    (huser : (splitLast? '@' text).getD ([], text) = (user, place))
    (hplace : splitHost false place = (hostText, rest)) :
    readAuthority scheme atEnd text =
      if text.head? = some '@' ∧ user = [] ∧ place = [] ∧ atEnd = false then .error .emptyHost
      else if hostText = [] ∧ (schemeKind scheme = .web ∨ rest ≠ []) then .error .emptyHost
      else (readHost (schemeKind scheme) hostText).bind fun host =>
        (readAfterHost rest).bind fun (port, left) =>
          if hostText = [] ∧ Credentials.ofText user ≠ .nobody then .error .emptyHost
          else .ok (⟨Credentials.ofText user, if hostText = [] then none else some host,
            if port = defaultPort? scheme then none else port⟩, left) := by
  have hread : readHost (schemeKind scheme) =
      if schemeKind scheme = .web then Host.ofWeb else Host.ofOther := by
    unfold readHost
    cases hk : schemeKind scheme
    · rfl
    · exact absurd hk hfile
    · rfl
  simp only [readAuthority, huser, hplace]
  by_cases hempty : text.head? = some '@' ∧ user = [] ∧ place = [] ∧ atEnd = false
  · rw [if_pos hempty, if_pos hempty]
    rfl
  · rw [if_neg hempty, if_neg hempty]
    by_cases hhost : hostText = [] ∧ (schemeKind scheme = .web ∨ rest ≠ [])
    · rw [if_pos hhost, if_pos hhost]
      rfl
    · rw [if_neg hhost, if_neg hhost, hread]
      split <;>
      · refine congrArg (Except.bind _) (funext fun host => ?_)
        unfold readAfterHost
        split
        · change ite _ _ _ = ite _ _ _
          split <;> rfl
        · refine congrArg (Except.bind _) (funext fun x => ?_)
          split <;> rfl

omit [Idna] in
theorem subset_of_splitHost (huser : (splitLast? '@' text).getD ([], text) = (user, place))
    (hplace : splitHost false place = (hostText, rest)) : rest ⊆ text := by
  have hrest : rest ⊆ place := by
    have happend := splitHost_append false place
    rw [hplace] at happend
    exact happend ▸ List.subset_append_right hostText rest
  refine List.Subset.trans hrest ?_
  cases hlast : splitLast? '@' text with
  | none =>
    rw [hlast] at huser
    obtain ⟨-, rfl⟩ := Prod.mk.inj huser
    exact List.Subset.refl _
  | some parts =>
    rw [hlast] at huser
    obtain rfl : parts = (user, place) := huser
    rw [eq_of_splitLast? hlast]
    exact List.Subset.trans (List.subset_cons_self _ _) (List.subset_append_right _ _)

omit [Idna] in
theorem readAfterHost_eq_ok {port : Option Nat} (h : readAfterHost rest = .ok (port, left)) :
    (∀ p, port = some p → p < 65536) ∧ (rest = [] → port = none) ∧ (left = [] ∨ '\\' ∈ rest) := by
  unfold readAfterHost at h
  split at h
  · obtain ⟨rfl, rfl⟩ := Prod.mk.inj (Except.ok.inj h)
    simp
  · rename_i hrest
    obtain ⟨hport, hleft⟩ := readPort_eq_ok h
    exact ⟨hport, fun he => absurd he hrest, hleft.imp_right List.mem_of_mem_drop⟩

theorem steady_readHost {host : Host} (h : readHost (schemeKind scheme) text = .ok host) (hne : text ≠ []) :
    Host.Steady (readHost (schemeKind scheme)) host := by
  unfold readHost at h ⊢
  split at h
  · rw [if_pos ‹_›]
    exact Host.steady_of_ofOther h hne
  · rw [if_neg ‹_›]
    exact Host.steady_of_ofWeb h

theorem readAuthority_eq_ok (hfile : schemeKind scheme ≠ .file)
    (h : readAuthority scheme atEnd text = .ok (a, left)) :
    a.Steady scheme ∧ (left = [] ∨ '\\' ∈ text) := by
  obtain ⟨user, place, huser⟩ : ∃ user place, (splitLast? '@' text).getD ([], text) = (user, place) :=
    ⟨_, _, rfl⟩
  obtain ⟨hostText, rest, hplace⟩ : ∃ hostText rest, splitHost false place = (hostText, rest) :=
    ⟨_, _, rfl⟩
  rw [readAuthority_eq hfile huser hplace] at h
  split at h
  · cases h
  split at h
  · cases h
  rename_i hhost
  cases hread : readHost (schemeKind scheme) hostText with
  | error e => simp [hread, Except.bind] at h
  | ok host =>
    cases hafter : readAfterHost rest with
    | error e => simp [hread, hafter, Except.bind] at h
    | ok read =>
      obtain ⟨port, left'⟩ := read
      obtain ⟨hport, hnone, hleft⟩ := readAfterHost_eq_ok hafter
      simp only [hread, hafter, Except.bind] at h
      split at h
      · cases h
      · rename_i hnobody
        obtain ⟨rfl, rfl⟩ := Prod.mk.inj (Except.ok.inj h)
        refine ⟨⟨Credentials.steady_ofText user, fun host' hh => ?_, fun p hp => ?_, fun hh => ?_⟩,
          hleft.imp_right fun hm => subset_of_splitHost huser hplace hm⟩
        · split at hh
          · cases hh
          · obtain rfl := Option.some.inj hh
            exact steady_readHost hread ‹_›
        · change (if port = defaultPort? scheme then none else port) = some p at hp
          split at hp
          · cases hp
          · exact ⟨hport p hp, hp ▸ ‹_›⟩
        · split at hh
          · rename_i hempty
            simp only [hempty, true_and, not_or, ne_eq, not_not] at hhost hnobody
            rw [hnobody, hnone hhost.2, if_pos hempty, ite_self]
            exact ⟨hhost.1, rfl⟩
          · cases hh

omit [Idna] in
theorem Authority.text_eq (a : Authority) :
    a.text = a.credentials.text ++ (a.host.elim [] Host.text ++ portText a.port) := by
  rw [Authority.text, List.append_assoc]
  rfl

theorem mem_place (h : a.Steady scheme) {c : Char}
    (hc : c ∈ a.host.elim [] Host.text ++ portText a.port) : isHostChar c ∨ c = ':' := by
  rcases List.mem_append.mp hc with hc | hc
  · cases hh : a.host with
    | none => simp [hh] at hc
    | some host =>
      rw [hh, Option.elim_some] at hc
      exact .inl ((h.host host hh).visible c hc)
  · cases hp : a.port with
    | none => simp [hp, portText] at hc
    | some p =>
      rw [hp, portText, Option.elim_some] at hc
      rcases List.mem_cons.mp hc with hc | hc
      · exact .inr hc
      · have hdigits := Text.number?_toDigits (show 1 < 10 by decide) (by decide) p
        exact .inl (Host.isHostChar_of_hexValue? (Text.isSome_of_number? hdigits c hc))

/-- Nothing in the text of an authority ends it, and everything there is visible. -/
theorem Authority.Steady.visible (h : a.Steady scheme) :
    ∀ c ∈ a.text, isVisible c ∧ endsAuthority true c = false := by
  have hmarks : ∀ c, isHostChar c ∨ c = ':' ∨ c = '@' → isVisible c ∧ endsAuthority true c = false := by
    rintro c (hc | rfl | rfl)
    · simp only [isHostChar, Bool.and_eq_true, Bool.not_eq_true'] at hc
      exact hc.1.1
    · decide
    · decide
  intro c hc
  refine hmarks c ?_
  rw [Authority.text_eq, Credentials.text_eq] at hc
  rcases List.mem_append.mp hc with hc | hc
  · split at hc
    · cases hc
    · rcases List.mem_append.mp hc with hc | hc
      · exact (Credentials.isHostChar_inner h.credentials c hc).symm.imp_right .inl
      · exact .inr (.inr (List.mem_singleton.mp hc))
  · exact (mem_place h hc).imp_right .inl

theorem Authority.Steady.text_ne_nil (h : a.Steady scheme) (hk : schemeKind scheme = .web) : a.text ≠ [] := by
  cases hh : a.host with
  | none => exact absurd hk (h.alone hh).1
  | some host =>
    have hhost := (h.host host hh).ne_nil
    simp [Authority.text, hh, hhost]

theorem splitLast?_authority (h : a.Steady scheme) :
    ∃ user, (splitLast? '@' a.text).getD ([], a.text) =
      (user, a.host.elim [] Host.text ++ portText a.port) ∧ Credentials.ofText user = a.credentials := by
  have hat : '@' ∉ a.host.elim [] Host.text ++ portText a.port := by
    intro hm
    rcases mem_place h hm with hc | hc
    · exact absurd hc (by decide)
    · cases hc
  rw [Authority.text_eq, Credentials.text_eq]
  split
  · rename_i hnobody
    rw [hnobody, List.nil_append, splitLast?_eq_none hat]
    exact ⟨[], rfl, rfl⟩
  · rw [List.append_assoc, List.singleton_append, splitLast?_append hat]
    exact ⟨_, rfl, Credentials.ofText_inner h.credentials⟩

omit [Idna] in
theorem readAfterHost_portText (hp : ∀ p, a.port = some p → p < 65536) :
    readAfterHost (portText a.port) = .ok (a.port, []) := by
  cases hport : a.port with
  | none => rfl
  | some p => exact readPort_decimal (hp p hport)

/-- An authority is read from its text. -/
theorem readAuthority_text (hfile : schemeKind scheme ≠ .file) (h : a.Steady scheme) (atEnd : Bool) :
    readAuthority scheme atEnd a.text = .ok (a, []) := by
  cases hh : a.host with
  | none =>
    obtain ⟨hweb, rfl⟩ := h.alone hh
    have hother : schemeKind scheme = .other := by
      cases hk : schemeKind scheme with
      | web => exact absurd hk hweb
      | file => exact absurd hk hfile
      | other => rfl
    have htext : Authority.text ⟨.nobody, none, none⟩ = [] := rfl
    have hread : readHost .other [] = .ok (.name []) := rfl
    have hafter : readAfterHost [] = .ok (none, []) := rfl
    have hnobody : Credentials.ofText [] = .nobody := rfl
    rw [readAuthority_eq hfile (show _ = (([] : List Char), ([] : List Char)) from rfl) rfl, hother, htext]
    simp [hread, hafter, hnobody, Except.bind]
  | some host =>
    obtain ⟨user, huser, hcredentials⟩ := splitLast?_authority h
    have hhost := h.host host hh
    have hplace := hhost.enclosed.splitHost (portText_starts a.port)
    have hafter := readAfterHost_portText fun p hp => (h.port p hp).1
    have hport : (if a.port = defaultPort? scheme then none else a.port) = a.port := by
      cases hp : a.port with
      | none => exact ite_self none
      | some p => exact if_neg (h.port p hp).2
    have hempty : host.text ++ portText a.port ≠ [] := by simp [hhost.ne_nil]
    rw [hh, Option.elim_some] at huser
    rw [readAuthority_eq hfile huser hplace, if_neg (fun hc => hempty hc.2.2.1),
      if_neg (fun hc => hhost.ne_nil hc.1)]
    simp only [hhost.read_text, hafter, Except.bind, hcredentials, hport, hhost.ne_nil, false_and,
      if_false, ← hh]

end Authorities
end AnnotationReport.Url
