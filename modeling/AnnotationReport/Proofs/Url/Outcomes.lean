import AnnotationReport.Proofs.Text.Utf8
import AnnotationReport.Url.Parser
import Mathlib.Data.List.TakeWhile

/-! # What a text is read as

Every URL that a text is read as has one of a few shapes, by its scheme and by what its path begins
with. What is to hold of all URLs that are read needs to be shown of these shapes only.
-/
namespace AnnotationReport.Url

section Schemes

/-- A scheme as it is written: a letter and further characters, in lower case. -/
structure IsScheme (scheme : List Char) : Prop where
  letter : ∃ c ∈ scheme.head?, c.isAlpha
  chars : ∀ c ∈ scheme, isSchemeChar c ∧ c.toLower = c

variable {text scheme rest : List Char} {c : Char}

theorem isSchemeChar_of_isAlpha (h : c.isAlpha) : isSchemeChar c := by
  simp [isSchemeChar, Char.isAlphanum, h]

theorem ascii_of_isSchemeChar (h : isSchemeChar c) : c.toNat < 0x80 := by
  simp only [isSchemeChar, Bool.or_eq_true, decide_eq_true_eq] at h
  rcases h with ((h | rfl) | rfl) | rfl
  · exact Text.Utf8.ascii_of_isAlphanum h
  · decide
  · decide
  · decide

theorem isSchemeChar_toLower (h : isSchemeChar c) :
    isSchemeChar c.toLower ∧ c.toLower.toLower = c.toLower ∧ (c.isAlpha → c.toLower.isAlpha) := by
  have hall : ∀ n : Fin 128, isSchemeChar (Char.ofNat n) → isSchemeChar (Char.ofNat n).toLower ∧
      (Char.ofNat n).toLower.toLower = (Char.ofNat n).toLower ∧
        ((Char.ofNat n).isAlpha → (Char.ofNat n).toLower.isAlpha) := by
    decide
  exact Text.Utf8.forall_ascii (p := fun c => isSchemeChar c → isSchemeChar c.toLower ∧
    c.toLower.toLower = c.toLower ∧ (c.isAlpha → c.toLower.isAlpha)) hall (ascii_of_isSchemeChar h) h

theorem splitScheme?_eq_some (h : splitScheme? text = some (scheme, rest)) :
    IsScheme scheme ∧ ∃ raw, text = raw ++ ':' :: rest := by
  unfold splitScheme? at h
  split at h
  · rename_i hdrop
    split at h
    · rename_i hhead
      obtain ⟨rfl, rfl⟩ := Prod.mk.inj (Option.some.inj h)
      refine ⟨⟨?_, fun d hd => ?_⟩, _, hdrop ▸ List.takeWhile_append_dropWhile.symm⟩
      · obtain ⟨c, hc, halpha⟩ := Option.any_eq_true _ _ |>.mp hhead
        obtain ⟨r, rfl⟩ : ∃ r, text = c :: r := ⟨text.tail, List.head?_eq_some_iff.mp hc |>.choose_spec ▸ rfl⟩
        have hscheme := isSchemeChar_of_isAlpha halpha
        refine ⟨c.toLower, ?_, (isSchemeChar_toLower hscheme).2.2 halpha⟩
        simp [hscheme]
      · obtain ⟨e, he, rfl⟩ := List.mem_map.mp hd
        obtain ⟨hchar, hlower, -⟩ := isSchemeChar_toLower (List.mem_takeWhile_imp he)
        exact ⟨hchar, hlower⟩
    · cases h
  · cases h

end Schemes

section Shapes

variable [Idna]

/-- The URLs of a scheme that a text is read as. Those of files are made of a part of the text. -/
inductive Outcome (text scheme : List Char) : Url → Prop
  | hosted {rest place left : List Char} {authority : Authority} {path : List Segment} {atEnd : Bool} :
      schemeKind scheme ≠ .file → readAuthority scheme atEnd place = .ok (authority, left) →
      (path = [] ∨ ∃ t, path = readSegments (schemeKind scheme) t) →
      Outcome text scheme (assemble scheme (some authority) (.segments path) rest)
  | file {path : List Char} {host : Option Host} : schemeKind scheme = .file → path ⊆ text →
      (∀ h, host = some h → h ≠ .name "localhost".toList ∧ ∃ t, Host.ofWeb t = .ok h) →
      Outcome text scheme (fileUrl scheme host path)
  | rooted {rest t : List Char} : schemeKind scheme = .other →
      Outcome text scheme (assemble scheme none (.segments (readSegments .other t)) rest)
  | rootless {rest t : List Char} : schemeKind scheme = .other →
      Outcome text scheme (assemble scheme none (.rootless t) rest)

variable {text scheme rest : List Char} {url : Url}

theorem Outcome.scheme_eq (h : Outcome text scheme url) : url.scheme = scheme := by
  cases h <;> rfl

theorem outcome_readHosted (hk : schemeKind scheme ≠ .file) (h : readHosted scheme rest = .ok url) :
    Outcome text scheme url := by
  unfold readHosted at h
  dsimp only at h
  cases ha : readAuthority scheme (rest.dropWhile (!endsAuthority (schemeKind scheme = .web) ·)).isEmpty
      (rest.takeWhile (!endsAuthority (schemeKind scheme = .web) ·)) with
  | error e => simp [ha, bind, Except.bind] at h
  | ok read =>
    simp only [ha, bind, Except.bind, pure, Except.pure, Except.ok.injEq] at h
    subst h
    refine .hosted hk ha ?_
    split
    · exact .inr ⟨_, rfl⟩
    · split
      · exact .inr ⟨_, rfl⟩
      · exact .inl rfl

theorem fileHost_eq_ok {t : List Char} {host : Option Host} (h : fileHost t = .ok host) :
    ∀ h, host = some h → h ≠ .name "localhost".toList ∧ ∃ t, Host.ofWeb t = .ok h := by
  unfold fileHost at h
  split at h
  · obtain rfl := Except.ok.inj h
    simp
  · cases hw : Host.ofWeb t with
    | error e => simp [hw, Except.map] at h
    | ok read =>
      simp only [hw, Except.map, Except.ok.injEq] at h
      intro host' hh
      rw [hh] at h
      obtain ⟨hne, hread⟩ := Option.ite_none_left_eq_some.mp h
      obtain rfl := Option.some.inj hread
      exact ⟨hne, t, hw⟩

theorem outcome_readFileHost (hk : schemeKind scheme = .file) (hsub : rest ⊆ text)
    (h : readFileHost scheme rest = .ok url) : Outcome text scheme url := by
  have hafter : rest.dropWhile (!endsAuthority true ·) ⊆ text :=
    List.Subset.trans (List.dropWhile_sublist _).subset hsub
  unfold readFileHost at h
  dsimp only at h
  split at h
  · obtain rfl := Except.ok.inj h
    exact .file hk hsub (by simp)
  · cases hh : fileHost (significant (rest.takeWhile (!endsAuthority true ·))) with
    | error e => simp [hh, Except.map] at h
    | ok host =>
      simp only [hh, Except.map, Except.ok.injEq] at h
      subst h
      cases host with
      | none => exact .file hk hafter (by simp)
      | some host =>
        refine .file hk ?_ fun h' hh' => ?_
        · split
          · exact List.Subset.trans (List.drop_subset _ _) hafter
          · exact hafter
        · exact fileHost_eq_ok hh h' (Option.ite_none_right_eq_some.mp hh').2

theorem outcome_readFile (hk : schemeKind scheme = .file) (hsub : rest ⊆ text)
    (h : readFile scheme rest = .ok url) : Outcome text scheme url := by
  unfold readFile at h
  split at h
  · obtain rfl := Except.ok.inj h
    exact .file hk (List.nil_subset _) (by simp)
  · rename_i c r hrest
    have hr : r ⊆ text := by
      have hdrop : c :: r ⊆ rest := hrest ▸ (List.dropWhile_sublist isBreak).subset
      exact List.Subset.trans (List.Subset.trans (List.subset_cons_self c r) hdrop) hsub
    dsimp only at h
    split at h
    · obtain rfl := Except.ok.inj h
      exact .file hk hsub (by simp)
    · split at h
      · refine outcome_readFileHost hk ?_ h
        exact List.Subset.trans (List.drop_subset _ _)
          (List.Subset.trans (List.dropWhile_sublist _).subset hr)
      · obtain rfl := Except.ok.inj h
        exact .file hk hr (by simp)

theorem outcome_readOther (hk : schemeKind scheme = .other) (h : readOther scheme rest = .ok url) :
    Outcome text scheme url := by
  unfold readOther at h
  split at h
  · exact outcome_readHosted (by simp [hk]) h
  · obtain rfl := Except.ok.inj h
    exact .rooted hk
  · obtain rfl := Except.ok.inj h
    exact .rootless hk

omit [Idna] in
theorem trimmed_subset (text : List Char) : trimmed text ⊆ text := by
  intro c hc
  have hstart := (List.dropWhile_sublist _).subset (List.mem_reverse.mp hc)
  exact (List.dropWhile_sublist _).subset (List.mem_reverse.mp hstart)

/-- A text is read as a URL of one of these shapes or not at all. -/
theorem outcome_ofChars (h : Url.ofChars text = .ok url) : IsScheme url.scheme ∧ Outcome text url.scheme url := by
  unfold Url.ofChars at h
  dsimp only at h
  split at h
  · cases h
  · rename_i scheme rest hsplit
    have houtcome : Outcome text scheme url := by
      split at h
      · exact outcome_readHosted (by simp [*]) h
      · refine outcome_readFile ‹_› ?_ h
        have hafter : (trimmed text).dropWhile (· != ':') ⊆ text :=
          List.Subset.trans (List.dropWhile_sublist _).subset (trimmed_subset text)
        exact List.Subset.trans (List.drop_subset _ _) hafter
      · exact outcome_readOther ‹_› h
    rw [houtcome.scheme_eq]
    exact ⟨(splitScheme?_eq_some hsplit).1, houtcome⟩

end Shapes

end AnnotationReport.Url
