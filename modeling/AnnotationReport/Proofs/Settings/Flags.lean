import AnnotationReport.Proofs.Settings.Concurrency
import AnnotationReport.Proofs.Text.Lists
import AnnotationReport.Settings.Arguments
import Mathlib.Data.List.Nodup

/-! # Settings that are given by flags

The words of a command line that gives settings by their flags, each flag with its value in the same word or
in the next one. A flag whose value is the next word is judged late, when the next flag comes or the words
end, yet the settings come to be as if each flag were judged at once. Where no flag is given twice, a setting
is what its flag says, else what the environment says, in whatever order and spelling the flags come.
-/
namespace AnnotationReport.Arguments

/-- A setting that is given by its flag. The value is a word of its own only if it does not look like a
flag. -/
structure Given where
  setting : Setting
  value : String
  apart : Bool
  plain : apart = true → value.toList.head? ≠ some '-'

namespace Given

def words (g : Given) : List String :=
  if g.apart then ["--" ++ g.setting.flagName, g.value]
  else ["--" ++ g.setting.flagName ++ "=" ++ g.value]

def pair (g : Given) : Setting × String := (g.setting, g.value)

end Given

def wordsOf (given : List Given) : List String := given.flatMap Given.words

section Words

variable (s : Setting) (value : String)

theorem ofChars_flag : Word.ofChars ("--" ++ s.flagName).toList = .long s.flagName none := by
  cases s <;> decide

theorem ofChars_attached :
    Word.ofChars ("--" ++ s.flagName ++ "=" ++ value).toList = .long s.flagName (some value) := by
  cases s <;> simp [Word.ofChars, Setting.flagName]

theorem ofChars_plain {value : String} (h : value.toList.head? ≠ some '-') :
    Word.ofChars value.toList = .plain := by
  unfold Word.ofChars
  split <;> simp_all

theorem ofName?_flagName : Flag.ofName? s.flagName = some (.setting s) := by
  cases s <;> decide

end Words

namespace Progress

def takeAll (p : Progress) : List Given → Except Stop Progress
  | [] => .ok p
  | g :: r => (p.take g.setting g.value).bind (takeAll · r)

def settled (taken : List (Setting × String)) : Progress := ⟨taken, none, false⟩

variable {p q : Progress} {s : Setting} {value : String} {taken : List (Setting × String)}

theorem take_eq_ok (h : p.take s value = .ok q) : q = { p with taken := p.taken ++ [(s, value)] } := by
  unfold take at h
  split at h
  · cases h
  · split at h
    · cases h
    · exact (Except.ok.inj h).symm

theorem settle_eq_ok (hp : p.separated = false) (h : p.settle = .ok q) : ∃ taken, q = settled taken := by
  obtain ⟨taken, pending, separated⟩ := p
  obtain rfl : separated = false := hp
  unfold settle at h
  split at h
  · rename_i hpending
    obtain rfl : pending = none := hpending
    exact ⟨taken, (Except.ok.inj h).symm⟩
  · cases h
  · exact ⟨_, take_eq_ok h⟩

theorem exists_settled_of_take (h : (settled taken).take s value = .ok q) : ∃ taken, q = settled taken :=
  ⟨_, take_eq_ok h⟩

theorem step_attached (hp : p.separated = false) (s : Setting) (value : String) :
    p.step ("--" ++ s.flagName ++ "=" ++ value) = p.settle.bind (·.take s value) := by
  simp only [step, hp, ofChars_attached, ofName?_flagName]
  rfl

theorem step_flag (hp : p.separated = false) (s : Setting) :
    p.step ("--" ++ s.flagName) = p.settle.map ({ · with pending := some (s, none) }) := by
  simp only [step, hp, ofChars_flag, ofName?_flagName]
  rfl

theorem step_value (h : value.toList.head? ≠ some '-') (taken : List (Setting × String)) (s : Setting) :
    step ⟨taken, some (s, none), false⟩ value = .ok ⟨taken, some (s, some value), false⟩ := by
  simp only [step, ofChars_plain h]
  rfl

/-- Words that give settings are read as if each setting were taken at once, also when a value waits. -/
theorem run_wordsOf (given : List Given) (hp : p.separated = false)
    (hwaiting : ∀ s, p.pending ≠ some (s, none)) :
    p.run (wordsOf given) = p.settle.bind (takeAll · given) := by
  induction given generalizing p with
  | nil =>
    change p.settle = _
    cases p.settle <;> rfl
  | cons g r ih =>
    have hsettled : ∀ taken, (settled taken).run (wordsOf r) = takeAll (settled taken) r := fun taken =>
      ih rfl (by simp [settled])
    by_cases hapart : g.apart = true
    · have hwords : wordsOf (g :: r) = ("--" ++ g.setting.flagName) :: g.value :: wordsOf r := by
        simp [wordsOf, Given.words, hapart]
      rw [hwords, run, step_flag hp]
      cases hsettle : p.settle with
      | error stop => rfl
      | ok q =>
        obtain ⟨taken, rfl⟩ := settle_eq_ok hp hsettle
        change run ⟨taken, some (g.setting, none), false⟩ _ = _
        rw [run, step_value (g.plain hapart)]
        exact ih rfl (by simp)
    · have hwords : wordsOf (g :: r) =
          ("--" ++ g.setting.flagName ++ "=" ++ g.value) :: wordsOf r := by
        simp [wordsOf, Given.words, hapart]
      rw [hwords, run, step_attached hp]
      cases hsettle : p.settle with
      | error stop => rfl
      | ok q =>
        obtain ⟨taken, rfl⟩ := settle_eq_ok hp hsettle
        change ((settled taken).take g.setting g.value).bind _ = _
        cases htake : (settled taken).take g.setting g.value with
        | error stop => simp [Except.bind, takeAll, htake]
        | ok t =>
          obtain ⟨more, rfl⟩ := exists_settled_of_take htake
          simp only [Except.bind, takeAll, htake, hsettled]

theorem fault?_eq_some {e : Error} (h : fault? s value = some e) :
    s = .concurrency ∧ ∃ cause, Concurrency.ofText value = .error cause ∧ e = .concurrency value cause := by
  unfold fault? at h
  split at h
  · rename_i cause hcause
    exact ⟨rfl, cause, hcause, (Option.some.inj h).symm⟩
  · cases h

/-- A setting is taken unless it has its value already, or the value is bad. -/
theorem take_cases (taken : List (Setting × String)) (s : Setting) (value : String) :
    (s ∈ taken.map Prod.fst ∧ (settled taken).take s value = .error (.refused (.repeated s))) ∨
      (∃ e, fault? s value = some e ∧ (settled taken).take s value = .error (.refused e)) ∨
      s ∉ taken.map Prod.fst ∧ (settled taken).take s value = .ok (settled (taken ++ [(s, value)])) := by
  by_cases hmem : s ∈ taken.map Prod.fst
  · exact .inl ⟨hmem, if_pos (Text.lookup_isSome_iff_mem.mpr hmem)⟩
  · have hnew : ¬(taken.lookup s).isSome := fun h => hmem (Text.lookup_isSome_iff_mem.mp h)
    cases hfault : fault? s value with
    | some e => exact .inr (.inl ⟨e, rfl, by simp [take, settled, hnew, hfault]⟩)
    | none => exact .inr (.inr ⟨hmem, by simp [take, settled, hnew, hfault]⟩)

/-- Taking one setting after the other succeeds, meets a bad value, or meets a setting that has its value. -/
theorem takeAll_cases (taken : List (Setting × String)) (hnodup : (taken.map Prod.fst).Nodup)
    (given : List Given) :
    takeAll (settled taken) given = .ok (settled (taken ++ given.map Given.pair)) ∧
        ((taken ++ given.map Given.pair).map Prod.fst).Nodup ∨
      (∃ g ∈ given, ∃ e, fault? g.setting g.value = some e ∧
        takeAll (settled taken) given = .error (.refused e)) ∨
      (∃ s, takeAll (settled taken) given = .error (.refused (.repeated s))) ∧
        ¬((taken ++ given.map Given.pair).map Prod.fst).Nodup := by
  induction given generalizing taken with
  | nil => exact .inl ⟨by simp [takeAll], by simpa using hnodup⟩
  | cons g r ih =>
    obtain ⟨hmem, htake⟩ | ⟨e, hfault, htake⟩ | ⟨hnew, htake⟩ := take_cases taken g.setting g.value
    · refine .inr (.inr ⟨⟨g.setting, by simp only [takeAll, htake, Except.bind]⟩, ?_⟩)
      intro h
      rw [List.map_append, List.nodup_append] at h
      exact h.2.2 _ hmem g.setting (by simp [Given.pair]) rfl
    · exact .inr (.inl ⟨g, List.mem_cons_self, e, hfault, by simp only [takeAll, htake, Except.bind]⟩)
    · have hmore : ((taken ++ [g.pair]).map Prod.fst).Nodup := by
        rw [List.map_append, List.map_singleton, ← List.concat_eq_append]
        exact hnodup.concat hnew
      have hall : takeAll (settled taken) (g :: r) = takeAll (settled (taken ++ [g.pair])) r := by
        simp only [takeAll, htake, Except.bind, Given.pair]
      have happend : taken ++ (g :: r).map Given.pair = taken ++ [g.pair] ++ r.map Given.pair := by
        simp
      rw [hall, happend]
      rcases ih _ hmore with hok | ⟨h, hh, e, he, herror⟩ | hrepeated
      · exact .inl hok
      · exact .inr (.inl ⟨h, List.mem_cons_of_mem _ hh, e, he, herror⟩)
      · exact .inr (.inr hrepeated)

end Progress

section Read

variable {given : List Given} (env : Environment)

def Once (given : List Given) : Prop := (given.map Given.setting).Nodup

instance (given : List Given) : Decidable (Once given) := inferInstanceAs (Decidable (List.Nodup _))

theorem once_iff : Once given ↔ ((given.map Given.pair).map Prod.fst).Nodup := by
  rw [Once, List.map_map]
  rfl

theorem lookup_pair (h : Once given) {g : Given} (hg : g ∈ given) :
    (given.map Given.pair).lookup g.setting = some g.value :=
  (Text.lookup_eq_some_iff_mem (once_iff.mp h)).mpr (List.mem_map_of_mem hg)

theorem read_wordsOf (env : Environment) (given : List Given) : read env (wordsOf given) =
    (Progress.takeAll (.settled []) given).bind fun p => settingsOf env p.taken := by
  have hrun := Progress.run_wordsOf (p := Progress.start) given rfl (by simp [Progress.start])
  rw [read, hrun]
  rfl

theorem read_of_once (h : Once given) :
    read env (wordsOf given) = settingsOf env (given.map Given.pair) := by
  rw [read_wordsOf]
  rcases Progress.takeAll_cases [] List.nodup_nil given with ⟨hok, -⟩ | ⟨g, hg, e, hfault, herror⟩ | ⟨-, hrep⟩
  · rw [hok]
    rfl
  · -- A bad value is found again where the settings are made, and is the same error there.
    obtain ⟨hsetting, cause, hcause, rfl⟩ := Progress.fault?_eq_some hfault
    have hlookup : (given.map Given.pair).lookup .concurrency = some g.value := hsetting ▸ lookup_pair h hg
    rw [herror]
    simp only [settingsOf, chosen?, hlookup, Option.some_or, concurrencyOf, hcause]
    rfl
  · exact absurd (once_iff.mp h) hrep

/-- A setting that is given twice is refused, unless a value before it is. -/
theorem read_of_not_once (h : ¬Once given) : ∃ e, read env (wordsOf given) = .error (.refused e) := by
  rw [read_wordsOf]
  rcases Progress.takeAll_cases [] List.nodup_nil given with ⟨-, hnodup⟩ | ⟨g, hg, e, -, herror⟩ | ⟨⟨s, hs⟩, -⟩
  · exact absurd (once_iff.mpr hnodup) h
  · exact ⟨e, by rw [herror]; rfl⟩
  · exact ⟨.repeated s, by rw [hs]; rfl⟩

/-- What is said of a setting: the value of its flag if that is given, else what the environment says. -/
def Says (env : Environment) (given : List Given) (s : Setting) (text : Option String) : Prop :=
  (∃ g ∈ given, g.setting = s ∧ text = some g.value) ∨
    (∀ g ∈ given, g.setting ≠ s) ∧ text = env s.variableName

variable {env} {text : Option String} {s : Setting}

theorem says_iff (h : Once given) :
    Says env given s text ↔ text = chosen? env (given.map Given.pair) s := by
  by_cases hgiven : ∃ g ∈ given, g.setting = s
  · obtain ⟨g, hg, rfl⟩ := hgiven
    have hlookup := lookup_pair h hg
    rw [chosen?, hlookup, Option.some_or]
    constructor
    · rintro (⟨other, hother, hsetting, rfl⟩ | ⟨hnone, -⟩)
      · rw [← lookup_pair h hother, hsetting, hlookup]
      · exact absurd rfl (hnone g hg)
    · exact fun htext => .inl ⟨g, hg, rfl, htext⟩
  · have hnone : ∀ g ∈ given, g.setting ≠ s := fun g hg hs => hgiven ⟨g, hg, hs⟩
    have hlookup : (given.map Given.pair).lookup s = none := by
      refine List.lookup_eq_none_iff.mpr fun m hm => ?_
      obtain ⟨g, hg, rfl⟩ := List.mem_map.mp hm
      exact bne_iff_ne.mpr (hnone g hg).symm
    rw [chosen?, hlookup, Option.none_or]
    constructor
    · rintro (hsome | ⟨-, htext⟩)
      · obtain ⟨g, hg, hs, -⟩ := hsome
        exact absurd hs (hnone g hg)
      · exact htext
    · exact fun htext => .inr ⟨hnone, htext⟩

/-- The concurrency that is asked for, one if nothing is said of it. -/
def Asks : Option String → Concurrency → Prop
  | none, c => c.limit = 1
  | some text, c => Concurrency.Writes text c.limit

theorem concurrencyOf_eq_ok_iff {c : Concurrency} : concurrencyOf text = .ok c ↔ Asks text c := by
  cases text with
  | none =>
    simp only [concurrencyOf, Except.ok.injEq, Asks]
    constructor
    · rintro rfl
      rfl
    · intro h
      cases c
      cases h
      rfl
  | some text =>
    rw [Asks, ← Concurrency.ofText_eq_ok_iff, concurrencyOf]
    cases Concurrency.ofText text <;> simp

theorem concurrencyOf_eq_error_iff {stop : Stop} : concurrencyOf text = .error stop ↔
    ∃ t cause, text = some t ∧ Concurrency.ofText t = .error cause ∧
      stop = .refused (.concurrency t cause) := by
  cases text with
  | none => simp [concurrencyOf]
  | some t =>
    cases h : Concurrency.ofText t <;> simp [concurrencyOf, h, eq_comm]

theorem settingsOf_eq_ok_iff {taken : List (Setting × String)} {settings : Settings} :
    settingsOf env taken = .ok settings ↔
      settings.token = chosen? env taken .token ∧ settings.runId = chosen? env taken .runId ∧
        settings.repository = chosen? env taken .repository ∧
        settings.apiUrl = chosen? env taken .apiUrl ∧
        Asks (chosen? env taken .concurrency) settings.concurrency := by
  rw [← concurrencyOf_eq_ok_iff, settingsOf]
  obtain ⟨token, runId, repository, apiUrl, concurrency⟩ := settings
  cases concurrencyOf (chosen? env taken .concurrency) with
  | error stop => simp [Except.map]
  | ok c =>
    simp only [Except.map, Except.ok.injEq, Settings.mk.injEq, eq_comm]

/-- Settings are what flags and environment say. -/
structure Agrees (env : Environment) (given : List Given) (settings : Settings) : Prop where
  token : Says env given .token settings.token
  runId : Says env given .runId settings.runId
  repository : Says env given .repository settings.repository
  apiUrl : Says env given .apiUrl settings.apiUrl
  concurrency : ∃ text, Says env given .concurrency text ∧ Asks text settings.concurrency

theorem agrees_iff (h : Once given) {settings : Settings} :
    Agrees env given settings ↔ settingsOf env (given.map Given.pair) = .ok settings := by
  rw [settingsOf_eq_ok_iff]
  constructor
  · rintro ⟨htoken, hrunId, hrepository, hapiUrl, text, htext, hasks⟩
    rw [says_iff h] at htoken hrunId hrepository hapiUrl htext
    exact ⟨htoken, hrunId, hrepository, hapiUrl, htext ▸ hasks⟩
  · rintro ⟨htoken, hrunId, hrepository, hapiUrl, hasks⟩
    exact ⟨(says_iff h).mpr htoken, (says_iff h).mpr hrunId, (says_iff h).mpr hrepository,
      (says_iff h).mpr hapiUrl, _, (says_iff h).mpr rfl, hasks⟩

theorem settingsOf_eq_error_iff {taken : List (Setting × String)} {stop : Stop} :
    settingsOf env taken = .error stop ↔ ∃ text cause, chosen? env taken .concurrency = some text ∧
      Concurrency.ofText text = .error cause ∧ stop = .refused (.concurrency text cause) := by
  rw [← concurrencyOf_eq_error_iff, settingsOf]
  cases concurrencyOf (chosen? env taken .concurrency) <;> simp [Except.map]

/-- Words that give settings, each by its flag and in either spelling, say what the settings are. As long as
none is given twice, a setting is its flag's value, else the variable's, else absent, and the concurrency is
the one that is written there, else one. Nothing else is looked at, so order and spelling do not count, and
the words are refused exactly when the text that counts for the concurrency writes none. Words that give a
setting twice are refused. -/
theorem read_flags (env : Environment) (given : List Given) :
    (Once given →
      (∀ settings, read env (wordsOf given) = .ok settings ↔ Agrees env given settings) ∧
        ((∃ stop, read env (wordsOf given) = .error stop) ↔
          ∃ text, Says env given .concurrency (some text) ∧ ∀ n, ¬Concurrency.Valid text n) ∧
        ∀ other : List Given, (other.map Given.pair).Perm (given.map Given.pair) →
          read env (wordsOf other) = read env (wordsOf given)) ∧
      (¬Once given → ∃ e, read env (wordsOf given) = .error (.refused e)) := by
  refine ⟨fun h => ⟨fun settings => ?_, ?_, fun other hperm => ?_⟩, read_of_not_once env⟩
  · rw [read_of_once env h, agrees_iff h]
  · simp only [read_of_once env h, settingsOf_eq_error_iff, says_iff h, ← Concurrency.exists_error_iff]
    constructor
    · rintro ⟨stop, text, cause, htext, hcause, -⟩
      exact ⟨text, htext.symm, cause, hcause⟩
    · rintro ⟨text, htext, cause, hcause⟩
      exact ⟨_, text, cause, htext.symm, hcause, rfl⟩
  · have hnodup := once_iff.mp h
    have hother : Once other := once_iff.mpr ((hperm.map Prod.fst).nodup_iff.mpr hnodup)
    have hchosen : chosen? env (other.map Given.pair) = chosen? env (given.map Given.pair) := by
      funext s
      rw [chosen?, chosen?, Text.lookup_eq_of_perm hnodup hperm]
    rw [read_of_once env h, read_of_once env hother, settingsOf, settingsOf, hchosen]

def mixed : List Given :=
  [⟨.concurrency, "+08", true, by decide⟩, ⟨.token, "--help=", false, by decide⟩,
    ⟨.runId, "", true, by decide⟩]

def mixedEnvironment : Environment := fun name =>
  [("GH_TOKEN", "t0ken"), ("GITHUB_REPOSITORY", "octo/hello"), ("ANNOTATIONS_CONCURRENCY", "many")].lookup name

def eight : Concurrency := ⟨8, by decide, by decide⟩

theorem writes_eight : Concurrency.Writes "+08" 8 :=
  ⟨['0', '8'], .inr rfl, List.cons_ne_nil _ _, by simp, rfl⟩

/-- The flags count, and what the environment says of the concurrency is not looked at. -/
theorem read_flags_mixed :
    Once mixed ∧ wordsOf mixed = ["--concurrency", "+08", "--token=--help=", "--run-id", ""] ∧
      read mixedEnvironment (wordsOf mixed) =
        .ok ⟨some "--help=", some "", some "octo/hello", none, eight⟩ ∧
      read mixedEnvironment ["--token", "x", "--concurrency=1", "--token=x"] =
        .error (.refused (.repeated .token)) := by
  have honce : Once mixed := by decide
  obtain ⟨hread, -⟩ := read_flags mixedEnvironment mixed
  refine ⟨honce, rfl, ((hread honce).1 _).mpr ?_, rfl⟩
  constructor
  case token => exact .inl ⟨mixed[1], by simp [mixed], rfl, rfl⟩
  case runId => exact .inl ⟨mixed[2], by simp [mixed], rfl, rfl⟩
  case repository => exact .inr ⟨by simp [mixed], rfl⟩
  case apiUrl => exact .inr ⟨by simp [mixed], rfl⟩
  case concurrency => exact ⟨_, .inl ⟨mixed[0], by simp [mixed], rfl, rfl⟩, writes_eight⟩

/-- Reading goes by a text for the concurrency: it gives the number that the text writes, if that is one of 64
bits above zero, and is refused otherwise. -/
def GoesBy (env : Environment) (words : List String) (text : String) : Prop :=
  (∀ n, (∃ settings, read env words = .ok settings ∧ settings.concurrency.limit = n) ↔
      Concurrency.Valid text n) ∧
    ((∀ n, ¬Concurrency.Valid text n) →
      ∃ cause, read env words = .error (.refused (.concurrency text cause)))

theorem goesBy_of_says {text : String} (h : Once given) (hs : Says env given .concurrency (some text)) :
    GoesBy env (wordsOf given) text := by
  have hchosen := (says_iff h).mp hs
  rw [GoesBy, read_of_once env h, ← Concurrency.exists_error_iff]
  refine ⟨fun n => ?_, ?_⟩
  · rw [← Concurrency.exists_ofText_iff]
    simp only [settingsOf_eq_ok_iff, ← hchosen, Asks, ← Concurrency.ofText_eq_ok_iff]
    constructor
    · rintro ⟨settings, ⟨-, -, -, -, hc⟩, hn⟩
      exact ⟨settings.concurrency, hc, hn⟩
    · rintro ⟨c, hc, hn⟩
      exact ⟨⟨_, _, _, _, c⟩, ⟨rfl, rfl, rfl, rfl, hc⟩, hn⟩
  · rintro ⟨cause, hcause⟩
    exact ⟨cause, settingsOf_eq_error_iff.mpr ⟨text, cause, hchosen.symm, hcause, rfl⟩⟩

/-- The concurrency is the number that its text writes, wherever the text comes from: digits with one plus
sign before them or none, however many zeros the digits begin with, that write a number of 64 bits above
zero. Any other text is refused, so that no number is ever cut down to 64 bits. -/
theorem concurrency_of_text (env : Environment) (text : String) :
    (∀ before after : List Given, Once (before ++ after) →
        (∀ g ∈ before ++ after, g.setting ≠ .concurrency) →
        GoesBy env (wordsOf before ++ ("--concurrency=" ++ text) :: wordsOf after) text) ∧
      (env "ANNOTATIONS_CONCURRENCY" = some text → ∀ given : List Given, Once given →
        (∀ g ∈ given, g.setting ≠ .concurrency) → GoesBy env (wordsOf given) text) ∧
      ∀ n m, Concurrency.Writes text n → Concurrency.Writes text m → n = m := by
  refine ⟨fun before after honce hnone => ?_, fun henv given honce hnone => ?_, fun n m => Concurrency.Writes.unique⟩
  · have hwords : wordsOf before ++ ("--concurrency=" ++ text) :: wordsOf after =
        wordsOf (before ++ ⟨.concurrency, text, false, by simp⟩ :: after) := by
      simp [wordsOf, Given.words, Setting.flagName]
    rw [hwords]
    refine goesBy_of_says ?_ (.inl ⟨_, List.mem_append_right _ List.mem_cons_self, rfl, rfl⟩)
    rw [Once, List.map_append, List.map_cons, List.nodup_middle, ← List.map_append]
    refine List.nodup_cons.mpr ⟨fun hm => ?_, honce⟩
    obtain ⟨g, hg, hsetting⟩ := List.mem_map.mp hm
    exact hnone g hg hsetting
  · exact goesBy_of_says honce (.inr ⟨hnone, henv.symm⟩)

def runFlag : Given := ⟨.runId, "42", true, by decide⟩

/-- The largest number of 64 bits is taken with zeros before it, and the next one is refused. -/
theorem concurrency_of_text_largest :
    Once [runFlag] ∧ (∀ g ∈ [runFlag], g.setting ≠ .concurrency) ∧
      (∃ settings, read (fun _ => none) ["--run-id", "42", "--concurrency=+0018446744073709551615"] =
        .ok settings ∧ settings.concurrency.limit = 18446744073709551615) ∧
      ∃ cause, read (fun _ => none) ["--run-id", "42", "--concurrency=18446744073709551616"] =
        .error (.refused (.concurrency "18446744073709551616" cause)) := by
  have honce : Once [runFlag] := by decide
  have hnone : ∀ g ∈ [runFlag], g.setting ≠ .concurrency := by simp [runFlag]
  have hgoes := fun text => (concurrency_of_text (fun _ => none) text).1 [runFlag] [] honce hnone
  refine ⟨honce, hnone, ?_, ?_⟩
  · refine ((hgoes "+0018446744073709551615").1 _).mpr ⟨?_, by omega, by omega⟩
    exact ⟨"0018446744073709551615".toList, .inr rfl, by decide, List.all_eq_true.mp rfl, by decide⟩
  · refine (hgoes "18446744073709551616").2 ?_
    rintro n ⟨hn, -, hle⟩
    have hwrites : Concurrency.Writes "18446744073709551616" 18446744073709551616 :=
      ⟨"18446744073709551616".toList, .inl rfl, by decide, List.all_eq_true.mp rfl, by decide⟩
    have hunique := hn.unique hwrites
    omega

end Read

end AnnotationReport.Arguments
