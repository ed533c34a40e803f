import AnnotationReport.Config.Basic
import AnnotationReport.Proofs.Config.Rereading
import AnnotationReport.Proofs.Text.Lists

/-! # Settings that make a configuration

Five conditions are looked at in a fixed order: three settings are given, the repository has its form and the
API's base URL can be read. Where all hold, the configuration has the texts as they are given; otherwise the
first that fails is the error, whatever comes after it. A setting that is absent and one that is empty are
the same.
-/
namespace AnnotationReport

namespace Repository

/-- One slash, which is not at either end. -/
def Slug (text : List Char) : Prop :=
  text.count '/' = 1 ∧ text.head? ≠ some '/' ∧ text.getLast? ≠ some '/'

instance (text : List Char) : Decidable (Slug text) := inferInstanceAs (Decidable (_ ∧ _))

variable {owner name : List Char}

theorem slug_iff (howner : '/' ∉ owner) :
    Slug (owner ++ '/' :: name) ↔ owner ≠ [] ∧ name ≠ [] ∧ '/' ∉ name := by
  have hcount : (owner ++ '/' :: name).count '/' = name.count '/' + 1 := by
    rw [List.count_append, List.count_eq_zero.mpr howner, List.count_cons_self, Nat.zero_add]
  rw [Slug, hcount, Nat.add_eq_right, List.count_eq_zero]
  constructor
  · rintro ⟨hname, hhead, hlast⟩
    refine ⟨?_, ?_, hname⟩
    · rintro rfl
      exact hhead rfl
    · rintro rfl
      exact hlast List.getLast?_concat
  · rintro ⟨ho, hn, hname⟩
    refine ⟨hname, ?_, ?_⟩
    · rw [List.head?_append_of_ne_nil _ ho]
      exact fun h => howner (List.mem_of_mem_head? h)
    · rw [List.getLast?_append_of_ne_nil _ (List.cons_ne_nil _ _), List.getLast?_cons_of_ne_nil hn]
      exact fun h => hname (List.mem_of_getLast? h)

theorem ofChars?_append (howner : '/' ∉ owner) : ofChars? (owner ++ '/' :: name) =
    if owner = [] ∨ name = [] ∨ '/' ∈ name then none
    else some ⟨String.ofList owner, String.ofList name⟩ := by
  have hplain : ∀ c ∈ owner, (c != '/') = true := fun c hc => bne_iff_ne.mpr fun h => howner (h ▸ hc)
  have hstop : ∀ c ∈ ('/' :: name).head?, (c != '/') = false := by simp
  obtain ⟨htake, hdrop⟩ := Text.takeWhile_append_stop hplain hstop
  simp only [ofChars?, htake, hdrop, List.drop_succ_cons, List.drop_zero]
  simp [or_assoc]

/-- A repository is named by a text: its owner and its own name stand before and after the slash. -/
structure NamedBy (r : Repository) (text : String) : Prop where
  text_eq : r.text = text
  owner_ne : r.owner ≠ ""
  name_ne : r.name ≠ ""
  owner_slashless : '/' ∉ r.owner.toList
  name_slashless : '/' ∉ r.name.toList

theorem ofText?_cases (text : String) :
    (Slug text.toList ∧ ∃ r, ofText? text = some r ∧ r.NamedBy text) ∨
      ¬Slug text.toList ∧ ofText? text = none := by
  by_cases hslash : '/' ∈ text.toList
  · obtain ⟨owner, name, hsplit, howner⟩ := List.eq_append_cons_of_mem hslash
    rw [ofText?, hsplit, slug_iff howner, ofChars?_append howner]
    by_cases hform : owner ≠ [] ∧ name ≠ [] ∧ '/' ∉ name
    · obtain ⟨ho, hn, hname⟩ := hform
      refine .inl ⟨⟨ho, hn, hname⟩, _, if_neg (by simp [ho, hn, hname]), ?_⟩
      constructor
      case text_eq => exact String.toList_inj.mp (by simp [Repository.text, hsplit])
      case owner_ne => simpa using ho
      case name_ne => simpa using hn
      case owner_slashless => simpa using howner
      case name_slashless => simpa using hname
    · refine .inr ⟨hform, if_pos ?_⟩
      by_contra hnone
      exact hform (by simpa [not_or] using hnone)
  · have hplain : ∀ c ∈ text.toList, (c != '/') = true := fun c hc =>
      bne_iff_ne.mpr fun h => hslash (h ▸ hc)
    have hdrop : text.toList.dropWhile (· != '/') = [] := List.dropWhile_eq_nil_iff.mpr hplain
    refine .inr ⟨fun h => ?_, by simp [ofText?, ofChars?, hdrop]⟩
    rw [Slug, List.count_eq_zero.mpr hslash] at h
    exact absurd h.1 (by decide)

end Repository

namespace RunConfig

def Absent (text : Option String) : Prop := text = none ∨ text = some ""

/-- The text that the base URL is read from: the one that is given, or else that of the public API. -/
def ChoosesUrl (settings : Settings) (text : String) : Prop :=
  Absent settings.apiUrl ∧ text = "https://api.github.com" ∨ settings.apiUrl = some text ∧ text ≠ ""

/-- What has to be given, in the order in which it is looked at. -/
def required (settings : Settings) : List (Setting × Option String) :=
  [(.token, settings.token), (.runId, settings.runId), (.repository, settings.repository)]

/-- The five conditions, by their place in the order, and what is said when one does not hold. -/
inductive Violates [Url.Idna] (settings : Settings) : Nat → Error → Prop where
  | missing {n : Nat} {s : Setting} {text : Option String} : (required settings)[n]? = some (s, text) →
      Absent text → Violates settings n (.missing s)
  | form {text : String} : settings.repository = some text → text ≠ "" → ¬Repository.Slug text.toList →
      Violates settings 3 (.repository text)
  | apiUrl {text : String} {cause : Url.Error} : ChoosesUrl settings text →
      ApiUrl.ofText text = .error cause → Violates settings 4 (.apiUrl text cause)

def Past [Url.Idna] (settings : Settings) (n : Nat) : Prop := ∀ m < n, ∀ e, ¬Violates settings m e

/-- The first condition that does not hold. -/
def First [Url.Idna] (settings : Settings) (n : Nat) (e : Error) : Prop := Violates settings n e ∧ Past settings n

/-- All that makes a configuration is given, and has its form. -/
structure Complete [Url.Idna] (settings : Settings) : Prop where
  token : ¬Absent settings.token
  runId : ¬Absent settings.runId
  repository : ∃ text, settings.repository = some text ∧ Repository.Slug text.toList
  apiUrl : ∃ text url, ChoosesUrl settings text ∧ ApiUrl.ofText text = .ok url

/-- A configuration has what the settings say. -/
structure Keeps [Url.Idna] (settings : Settings) (c : RunConfig) : Prop where
  token : settings.token = some c.token
  runId : settings.runId = some c.runId
  repository : ∃ text, settings.repository = some text ∧ c.repository.NamedBy text
  apiUrl : ∃ text, ChoosesUrl settings text ∧ ApiUrl.ofText text = .ok c.apiUrl
  concurrency : c.concurrency = settings.concurrency

/-- Two texts are the same, or neither says anything. -/
def Same (text text' : Option String) : Prop := text = text' ∨ Absent text ∧ Absent text'

variable {settings : Settings} {text text' : Option String} {s : Setting}

theorem not_absent_some {t : String} (h : t ≠ "") : ¬Absent (some t) := by
  simp [Absent, h]

theorem given?_cases (text : Option String) :
    (∃ t, text = some t ∧ t ≠ "" ∧ Text.given? text = some t) ∨
      Absent text ∧ Text.given? text = none := by
  cases text with
  | none => exact .inr ⟨.inl rfl, rfl⟩
  | some t =>
    by_cases ht : t = ""
    · exact .inr ⟨.inr (by rw [ht]), by simp [ht, Text.given?]⟩
    · exact .inl ⟨t, rfl, ht, by simp [ht, Text.given?]⟩

theorem given?_of_same (h : Same text text') : Text.given? text = Text.given? text' := by
  have hnone : ∀ {t : Option String}, Absent t → Text.given? t = none := by
    rintro t (rfl | rfl) <;> rfl
  rcases h with rfl | ⟨habsent, habsent'⟩
  · rfl
  · rw [hnone habsent, hnone habsent']

theorem choosesUrl_iff {t : String} :
    ChoosesUrl settings t ↔ t = (Text.given? settings.apiUrl).getD ApiUrl.fallback := by
  rcases given?_cases settings.apiUrl with ⟨u, hu, hne, hgiven⟩ | ⟨habsent, hgiven⟩
  · rw [ChoosesUrl, hgiven, hu, Option.getD_some, Option.some.injEq]
    constructor
    · rintro (⟨habsent, -⟩ | ⟨rfl, -⟩)
      · exact absurd habsent (not_absent_some hne)
      · rfl
    · rintro rfl
      exact .inr ⟨rfl, hne⟩
  · rw [hgiven, Option.getD_none]
    constructor
    · rintro (⟨-, ht⟩ | ⟨ht, hne⟩)
      · exact ht
      · exact absurd (ht ▸ habsent) (not_absent_some hne)
    · intro ht
      exact .inl ⟨habsent, ht⟩

section Stages

/-! What each stage of the reading gives, and what it stops with. -/

theorem require_eq_ok_iff {t : String} : require s text = .ok t ↔ text = some t ∧ t ≠ "" := by
  rcases given?_cases text with ⟨u, rfl, hne, hgiven⟩ | ⟨habsent, hgiven⟩
  · rw [require, hgiven]
    constructor
    · intro h
      obtain rfl := Except.ok.inj h
      exact ⟨rfl, hne⟩
    · rintro ⟨ht, -⟩
      rw [Option.some.inj ht]
  · rw [require, hgiven]
    constructor
    · intro h
      cases h
    · rintro ⟨rfl, hne⟩
      exact absurd habsent (not_absent_some hne)

theorem require_eq_error_iff {e : Error} : require s text = .error e ↔ Absent text ∧ e = .missing s := by
  rcases given?_cases text with ⟨u, rfl, hne, hgiven⟩ | ⟨habsent, hgiven⟩
  · simp [require, hgiven, not_absent_some hne]
  · simp [require, hgiven, habsent, eq_comm]

theorem readRepository_of_ok {r : Repository} {t : String} (h : readRepository t = .ok r) :
    Repository.Slug t.toList ∧ r.NamedBy t := by
  rcases Repository.ofText?_cases t with ⟨hslug, r', hr', hnamed⟩ | ⟨-, hnone⟩
  · rw [readRepository, hr'] at h
    obtain rfl := Except.ok.inj h
    exact ⟨hslug, hnamed⟩
  · rw [readRepository, hnone] at h
    cases h

theorem readRepository_eq_error_iff {e : Error} {t : String} :
    readRepository t = .error e ↔ ¬Repository.Slug t.toList ∧ e = .repository t := by
  rcases Repository.ofText?_cases t with ⟨hslug, r, hr, -⟩ | ⟨hslug, hnone⟩
  · simp [readRepository, hr, hslug]
  · simp [readRepository, hnone, hslug, eq_comm]

variable [Url.Idna]

theorem readApiUrl_eq_ok_iff {url : Url} {t : String} :
    readApiUrl t = .ok url ↔ ApiUrl.ofText t = .ok url := by
  cases h : ApiUrl.ofText t <;> simp [readApiUrl, h]

theorem readApiUrl_eq_error_iff {e : Error} {t : String} : readApiUrl t = .error e ↔
    ∃ cause, ApiUrl.ofText t = .error cause ∧ e = .apiUrl t cause := by
  cases h : ApiUrl.ofText t <;> simp [readApiUrl, h, eq_comm]

/-! A condition does not hold exactly when its stage stops. -/

variable {n : Nat} {e e' : Error}

theorem violates_missing_iff (h : (required settings)[n]? = some (s, text)) :
    Violates settings n e ↔ require s text = .error e := by
  rw [require_eq_error_iff]
  constructor
  · intro hviolates
    cases hviolates with
    | missing h' habsent =>
      obtain ⟨rfl, rfl⟩ := Prod.mk.inj (Option.some.inj (h.symm.trans h'))
      exact ⟨habsent, rfl⟩
    | form | apiUrl => cases h
  · rintro ⟨habsent, rfl⟩
    exact .missing h habsent

theorem violates_form_iff {t : String} (h : require .repository settings.repository = .ok t) :
    Violates settings 3 e ↔ readRepository t = .error e := by
  obtain ⟨hgiven, hne⟩ := require_eq_ok_iff.mp h
  rw [readRepository_eq_error_iff]
  constructor
  · intro hviolates
    cases hviolates with
    | missing h' => cases h'
    | form hgiven' _ hform =>
      obtain rfl := Option.some.inj (hgiven.symm.trans hgiven')
      exact ⟨hform, rfl⟩
  · rintro ⟨hform, rfl⟩
    exact .form hgiven hne hform

theorem violates_apiUrl_iff : Violates settings 4 e ↔
    readApiUrl ((Text.given? settings.apiUrl).getD ApiUrl.fallback) = .error e := by
  rw [readApiUrl_eq_error_iff]
  constructor
  · intro hviolates
    cases hviolates with
    | missing h' => cases h'
    | apiUrl hchosen hcause =>
      obtain rfl := choosesUrl_iff.mp hchosen
      exact ⟨_, hcause, rfl⟩
  · rintro ⟨cause, hcause, rfl⟩
    exact .apiUrl (choosesUrl_iff.mpr rfl) hcause

theorem Violates.unique (h : Violates settings n e) (h' : Violates settings n e') : e = e' := by
  cases h with
  | missing hrequired habsent =>
    rw [violates_missing_iff hrequired, require_eq_error_iff] at h'
    exact h'.2.symm
  | form hgiven hne hform =>
    rw [violates_form_iff (require_eq_ok_iff.mpr ⟨hgiven, hne⟩), readRepository_eq_error_iff] at h'
    exact h'.2.symm
  | apiUrl hchosen hcause =>
    rw [violates_apiUrl_iff, ← choosesUrl_iff.mp hchosen, readApiUrl_eq_error_iff] at h'
    obtain ⟨cause, hcause', rfl⟩ := h'
    rw [Except.error.inj (hcause.symm.trans hcause')]

theorem First.unique {n' : Nat} (h : First settings n e) (h' : First settings n' e') : e = e' := by
  obtain hlt | rfl | hlt := Nat.lt_trichotomy n n'
  · exact absurd h.1 (h'.2 n hlt e)
  · exact h.1.unique h'.1
  · exact absurd h'.1 (h.2 n' hlt e')

omit [Url.Idna] in
theorem given_of_required (htoken : ¬Absent settings.token) (hrunId : ¬Absent settings.runId)
    (hrepository : ¬Absent settings.repository) (h : (required settings)[n]? = some (s, text)) :
    ¬Absent text := by
  have hmem := List.mem_of_getElem? h
  simp only [required, List.mem_cons, Prod.mk.injEq, List.not_mem_nil, or_false] at hmem
  rcases hmem with ⟨-, rfl⟩ | ⟨-, rfl⟩ | ⟨-, rfl⟩
  · exact htoken
  · exact hrunId
  · exact hrepository

theorem Complete.not_violates (h : Complete settings) : ¬Violates settings n e := by
  obtain ⟨text, htext, hslug⟩ := h.repository
  have hne : text ≠ "" := by
    rintro rfl
    exact absurd hslug.1 (by decide)
  intro hviolates
  cases hviolates with
  | missing hrequired habsent =>
    exact given_of_required h.token h.runId (htext ▸ not_absent_some hne) hrequired habsent
  | form hgiven _ hform =>
    obtain rfl := Option.some.inj (htext.symm.trans hgiven)
    exact hform hslug
  | apiUrl hchosen hcause =>
    obtain ⟨chosen, url, hchosen', hurl⟩ := h.apiUrl
    obtain rfl := (choosesUrl_iff.mp hchosen).trans (choosesUrl_iff.mp hchosen').symm
    cases hcause.symm.trans hurl

theorem past_zero : Past settings 0 := fun m hm => absurd hm (Nat.not_lt_zero m)

/-- A stage past the conditions before it stops at its own, which is then the first to fail, or goes on past
its own as well. -/
theorem Past.bind {α β : Type} {read : Except Error α} {next : α → Except Error β}
    (hpast : Past settings n) (hread : ∀ e, Violates settings n e ↔ read = .error e)
    (h : read >>= next = .error e) :
    First settings n e ∨ ∃ a, read = .ok a ∧ next a = .error e ∧ Past settings (n + 1) := by
  cases read with
  | error e' =>
    have he : e' = e := by
      cases h
      rfl
    exact .inl ⟨(hread e).mpr (congrArg _ he), hpast⟩
  | ok a =>
    refine .inr ⟨a, rfl, h, Nat.forall_lt_succ_right.mpr ⟨hpast, fun e hviolates => ?_⟩⟩
    cases (hread e).mp hviolates

end Stages

theorem bind_eq_ok {α β ε : Type} {x : Except ε α} {f : α → Except ε β} {b : β} (h : x >>= f = .ok b) :
    ∃ a, x = .ok a ∧ f a = .ok b := by
  cases x with
  | error e => cases h
  | ok a => exact ⟨a, rfl, h⟩

section Reading

variable [Url.Idna] {c : RunConfig} {e : Error}

theorem ofSettings_of_ok (h : ofSettings settings = .ok c) : Complete settings ∧ Keeps settings c := by
  obtain ⟨token, htoken, h⟩ := bind_eq_ok h
  obtain ⟨runId, hrunId, h⟩ := bind_eq_ok h
  obtain ⟨slug, hslug, h⟩ := bind_eq_ok h
  obtain ⟨repository, hrepository, h⟩ := bind_eq_ok h
  obtain ⟨apiUrl, hapiUrl, h⟩ := bind_eq_ok h
  obtain rfl := Except.ok.inj h
  obtain ⟨htoken, htokenNe⟩ := require_eq_ok_iff.mp htoken
  obtain ⟨hrunId, hrunIdNe⟩ := require_eq_ok_iff.mp hrunId
  obtain ⟨hgiven, -⟩ := require_eq_ok_iff.mp hslug
  obtain ⟨hform, hnamed⟩ := readRepository_of_ok hrepository
  have hread := readApiUrl_eq_ok_iff.mp hapiUrl
  have hchosen := choosesUrl_iff.mpr (Eq.refl ((Text.given? settings.apiUrl).getD ApiUrl.fallback))
  constructor
  · constructor
    case token => exact htoken ▸ not_absent_some htokenNe
    case runId => exact hrunId ▸ not_absent_some hrunIdNe
    case repository => exact ⟨slug, hgiven, hform⟩
    case apiUrl => exact ⟨_, apiUrl, hchosen, hread⟩
  · constructor
    case token => exact htoken
    case runId => exact hrunId
    case repository => exact ⟨slug, hgiven, hnamed⟩
    case apiUrl => exact ⟨_, hchosen, hread⟩
    case concurrency => rfl

theorem ofSettings_of_error (h : ofSettings settings = .error e) : ∃ n, First settings n e := by
  obtain hfirst | ⟨token, -, h, hpast⟩ := past_zero.bind (fun _ => violates_missing_iff rfl) h
  · exact ⟨0, hfirst⟩
  obtain hfirst | ⟨runId, -, h, hpast⟩ := hpast.bind (fun _ => violates_missing_iff rfl) h
  · exact ⟨1, hfirst⟩
  obtain hfirst | ⟨slug, hslug, h, hpast⟩ := hpast.bind (fun _ => violates_missing_iff rfl) h
  · exact ⟨2, hfirst⟩
  obtain hfirst | ⟨repository, -, h, hpast⟩ := hpast.bind (fun _ => violates_form_iff hslug) h
  · exact ⟨3, hfirst⟩
  obtain hfirst | ⟨apiUrl, -, h, -⟩ := hpast.bind (fun _ => violates_apiUrl_iff) h
  · exact ⟨4, hfirst⟩
  · cases h

theorem ofSettings_of_same {other : Settings} (htoken : Same other.token settings.token)
    (hrunId : Same other.runId settings.runId) (hrepository : Same other.repository settings.repository)
    (hapiUrl : Same other.apiUrl settings.apiUrl) (hconcurrency : other.concurrency = settings.concurrency) :
    ofSettings other = ofSettings settings := by
  simp only [ofSettings, require, given?_of_same htoken, given?_of_same hrunId,
    given?_of_same hrepository, given?_of_same hapiUrl, hconcurrency]

/-- Settings make a configuration exactly when all is given and has its form, and the configuration then has
the texts as they are given, with a base URL below which there are segments. Otherwise the first condition
that fails is what is said, whatever the settings after it are. A setting that is empty is none. -/
theorem ofSettings_complete_or_first (settings : Settings) :
    ((∃ c, ofSettings settings = .ok c) ↔ Complete settings) ∧
      (∀ e, ofSettings settings = .error e ↔ ∃ n, First settings n e) ∧
      (∀ c, ofSettings settings = .ok c → Keeps settings c ∧ c.apiUrl.isBase) ∧
      ∀ other : Settings, Same other.token settings.token → Same other.runId settings.runId →
        Same other.repository settings.repository → Same other.apiUrl settings.apiUrl →
        other.concurrency = settings.concurrency → ofSettings other = ofSettings settings := by
  refine ⟨⟨?_, fun h => ?_⟩, fun e => ⟨ofSettings_of_error, ?_⟩, fun c h => ?_, ?_⟩
  · rintro ⟨c, hc⟩
    exact (ofSettings_of_ok hc).1
  · cases hread : ofSettings settings with
    | ok c => exact ⟨c, rfl⟩
    | error e =>
      obtain ⟨n, hfirst, -⟩ := ofSettings_of_error hread
      exact absurd hfirst h.not_violates
  · rintro ⟨n, hfirst⟩
    cases hread : ofSettings settings with
    | ok c => exact absurd hfirst.1 (ofSettings_of_ok hread).1.not_violates
    | error e' =>
      obtain ⟨n', hfirst'⟩ := ofSettings_of_error hread
      rw [hfirst'.unique hfirst]
  · have hkeeps := (ofSettings_of_ok h).2
    obtain ⟨text, -, hurl⟩ := hkeeps.apiUrl
    exact ⟨hkeeps, (ApiUrl.ofText_eq_ok.mp hurl).2⟩
  · intro other htoken hrunId hrepository hapiUrl hconcurrency
    exact ofSettings_of_same htoken hrunId hrepository hapiUrl hconcurrency

end Reading

def blanks : Settings := ⟨some " ", some "42\n", some "octo/hello", some "", .one⟩

/-- The repository has a slash too many, and the base URL no scheme. -/
def doubled : Settings := ⟨some "t0ken", some "42", some "octo/hello/", some "api.test", .one⟩

theorem ofSettings_complete_or_first_blanks :
    (∃ c, ofSettings blanks = .ok c ∧ c.token = " " ∧ c.runId = "42\n" ∧ c.repository.text = "octo/hello" ∧
        c.apiUrl.isBase ∧ ofSettings ⟨some " ", some "42\n", some "octo/hello", none, .one⟩ = .ok c) ∧
      ofSettings doubled = .error (.repository "octo/hello/") := by
  obtain ⟨hcomplete, -, hkeeps, hsame⟩ := ofSettings_complete_or_first blanks
  constructor
  · obtain ⟨c, hc⟩ := hcomplete.mpr ⟨not_absent_some (by decide), not_absent_some (by decide),
      ⟨_, rfl, by decide⟩, ⟨_, _, .inl ⟨.inr rfl, rfl⟩, rfl⟩⟩
    obtain ⟨⟨htoken, hrunId, ⟨text, htext, hnamed⟩, -, -⟩, hbase⟩ := hkeeps c hc
    obtain rfl := Option.some.inj htext
    refine ⟨c, hc, (Option.some.inj htoken).symm, (Option.some.inj hrunId).symm, hnamed.text_eq, hbase, ?_⟩
    rw [← hc]
    exact hsame _ (.inl rfl) (.inl rfl) (.inl rfl) (.inr ⟨.inl rfl, .inr rfl⟩) rfl
  · refine ((ofSettings_complete_or_first doubled).2.1 _).mpr ⟨3, .form rfl (by decide) (by decide), ?_⟩
    intro m hm e hviolates
    cases hviolates with
    | missing hrequired habsent =>
      exact given_of_required (not_absent_some (by decide)) (not_absent_some (by decide))
        (not_absent_some (by decide)) hrequired habsent
    | form | apiUrl => omega

end RunConfig

end AnnotationReport
