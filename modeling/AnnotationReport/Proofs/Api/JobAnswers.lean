import AnnotationReport.Api.Job
import AnnotationReport.Proofs.Json.Layout
import AnnotationReport.Proofs.Json.Members
import AnnotationReport.Proofs.Text.Digits

/-! # Answers that list jobs

Which jobs an answer lists, said without reading it: by the values of its known members alone. All other
members may have any value, and they may as well be left out. A known member given twice and a job without
an id spoil the answer.
-/
namespace AnnotationReport.Job

open Json (Document Key Layout TokenText Writable plainKey stringOf? stringOf?_plainKey
  tokenText_plainKey valuesOf writable_array writable_object)

section Grammar

/-- All keys are texts. -/
abbrev TextKeys (members : List (Key × Document)) : Prop := ∀ m ∈ members, (stringOf? m.1).isSome

/-- A numeral without sign, point and exponent, of 64 bits. -/
inductive WritesId : Document → Nat → Prop
  | mk {digits : List Nat} : Text.ofDigits 10 digits < UInt64.size →
      WritesId (.number ⟨false, digits, [], none⟩) (Text.ofDigits 10 digits)

/-- A name may be left out. -/
inductive WritesName : Option Document → Option String → Prop
  | absent : WritesName none none
  | null : WritesName (some .null) none
  | text {parts : List Json.StringPart} {name : String} : stringOf? parts = some name →
      WritesName (some (.string parts)) (some name)

/-- A job by its members, an id and at most one name, or by their places. -/
inductive Writes : Document → Job → Prop
  | members {ms : List (Key × Document)} {i : Document} {n : Option Document} {id : Nat}
      {name : Option String} : TextKeys ms → valuesOf "id" ms = [i] → valuesOf "name" ms = n.toList →
      WritesId i id → WritesName n name → Writes (.object ms) ⟨id, name⟩
  | places {i : Document} {n : Option Document} {id : Nat} {name : Option String} :
      WritesId i id → WritesName n name → Writes (.array (i :: n.toList)) ⟨id, name⟩

/-- A list of jobs may be left out too. -/
inductive WritesList : Option Document → Option (List Job) → Prop
  | absent : WritesList none none
  | null : WritesList (some .null) none
  | array {items : List Document} {jobs : List Job} : List.Forall₂ Writes items jobs →
      WritesList (some (.array items)) (some jobs)

/-- A whole answer, by at most one member or by its place. -/
inductive Answers : Document → Option (List Job) → Prop
  | members {ms : List (Key × Document)} {value : Option Document} {listing : Option (List Job)} :
      TextKeys ms → valuesOf "jobs" ms = value.toList → WritesList value listing →
        Answers (.object ms) listing
  | places {value : Option Document} {listing : Option (List Job)} :
      WritesList value listing → Answers (.array value.toList) listing

end Grammar

section Members

variable {members : List (Key × Document)} {texts : List (String × Document)} {key : String}

theorem textKeys?_eq_some (h : textKeys? members = some texts) :
    TextKeys members ∧ ∀ key, (texts.filter (·.1 = key)).map Prod.snd = valuesOf key members := by
  induction members generalizing texts with
  | nil =>
    cases h
    exact ⟨fun _ hm => (by cases hm), fun _ => rfl⟩
  | cons m r ih =>
    simp only [textKeys?, List.mapM_cons, bind, Option.bind_eq_some_iff, pure] at h
    obtain ⟨t, ht, ts, hts, h⟩ := h
    obtain ⟨k, hk, rfl⟩ := Option.map_eq_some_iff.mp ht
    obtain rfl := Option.some.inj h
    obtain ⟨hkeys, hvalues⟩ := ih hts
    constructor
    · exact List.forall_mem_cons.mpr ⟨by simp [hk], hkeys⟩
    · intro key
      have hr := hvalues key
      by_cases h : k = key <;> simp [valuesOf, hk, h] at hr ⊢ <;> exact hr

theorem exists_textKeys? (h : TextKeys members) : ∃ texts, textKeys? members = some texts := by
  induction members with
  | nil => exact ⟨[], rfl⟩
  | cons m r ih =>
    obtain ⟨hm, hr⟩ := List.forall_mem_cons.mp h
    obtain ⟨k, hk⟩ := Option.isSome_iff_exists.mp hm
    obtain ⟨ts, hts⟩ := ih hr
    refine ⟨(k, m.2) :: ts, ?_⟩
    simp only [textKeys?] at hts
    simp [textKeys?, hk, hts]

theorem member?_eq_some {value : Option Document} :
    member? key texts = some value ↔ (texts.filter (·.1 = key)).map Prod.snd = value.toList := by
  unfold member?
  split
  · rename_i h
    cases value <;> simp [h]
  · rename_i m h
    cases value <;> simp [h]
  · rename_i hnone hsome
    constructor
    · intro h
      cases h
    · intro h
      cases value with
      | none => exact absurd (List.map_eq_nil_iff.mp h) hnone
      | some d =>
        obtain ⟨m, hm, -⟩ := List.map_eq_singleton_iff.mp h
        exact absurd hm (hsome m)

end Members

section Reading

theorem idOf?_eq_some {d : Document} {id : Nat} : idOf? d = some id ↔ WritesId d id := by
  constructor
  · intro h
    cases d with
    | number n =>
      obtain ⟨negative, whole, fraction, exponent⟩ := n
      simp only [idOf?, Json.Numeral.integer?] at h
      split at h
      · rename_i i hi
        cases h
        split_ifs at hi with hplain hnegative hbound hbound
        · -- A negative integer is no natural number.
          have := Option.some.inj hi
          simp only [Int.ofNat_eq_natCast] at this
          omega
        · obtain ⟨rfl, rfl⟩ := not_or.mp hplain |>.imp not_not.mp not_not.mp
          obtain rfl : negative = false := by simpa using hnegative
          have := Option.some.inj hi
          simp only [Int.ofNat_eq_natCast, Int.natCast_inj] at this
          exact this ▸ .mk hbound
      · cases h
    | _ => cases h
  · rintro ⟨hbound⟩
    simp [idOf?, Json.Numeral.integer?, hbound]

theorem nameOf?_eq_some {d : Option Document} {name : Option String} :
    nameOf? d = some name ↔ WritesName d name := by
  constructor
  · intro h
    unfold nameOf? at h
    split at h
    · cases h
      exact .absent
    · cases h
      exact .null
    · obtain ⟨s, hs, rfl⟩ := Option.map_eq_some_iff.mp h
      exact .text hs
    · cases h
  · intro h
    cases h with
    | absent => rfl
    | null => rfl
    | text hs => simp [nameOf?, hs]

theorem ofParts?_eq_some {i : Document} {n : Option Document} {job : Job} :
    ofParts? i n = some job ↔ WritesId i job.id ∧ WritesName n job.name := by
  rw [← idOf?_eq_some, ← nameOf?_eq_some]
  obtain ⟨id, name⟩ := job
  simp [ofParts?, Option.bind_eq_some_iff, and_comm]

theorem ofDocument?_eq_some {d : Document} {job : Job} : ofDocument? d = some job ↔ Writes d job := by
  constructor
  · intro h
    unfold ofDocument? at h
    split at h
    · obtain ⟨texts, htexts, h⟩ := Option.bind_eq_some_iff.mp h
      obtain ⟨hkeys, hvalues⟩ := textKeys?_eq_some htexts
      obtain ⟨i, hi, h⟩ := Option.bind_eq_some_iff.mp h
      obtain ⟨n, hn, h⟩ := Option.bind_eq_some_iff.mp h
      obtain ⟨i, rfl, h⟩ := Option.bind_eq_some_iff.mp h
      rw [member?_eq_some, hvalues] at hi hn
      obtain ⟨hid, hname⟩ := ofParts?_eq_some.mp h
      exact .members hkeys hi hn hid hname
    · obtain ⟨hid, hname⟩ := ofParts?_eq_some.mp h
      exact .places hid hname
    · obtain ⟨hid, hname⟩ := ofParts?_eq_some.mp h
      exact .places hid hname
    · cases h
  · intro h
    cases h with
    | @members ms i n id name hkeys hi hn hid hname =>
      obtain ⟨texts, htexts⟩ := exists_textKeys? hkeys
      have hvalues := (textKeys?_eq_some htexts).2
      have hone : member? "id" texts = some (some i) := member?_eq_some.mpr ((hvalues _).trans hi)
      have hother : member? "name" texts = some n := member?_eq_some.mpr ((hvalues _).trans hn)
      have hparts : ofParts? i n = some ⟨id, name⟩ := ofParts?_eq_some.mpr ⟨hid, hname⟩
      simp only [ofDocument?, ofMembers?, htexts, hone, hother, Option.bind_some, hparts]
    | @places i n id name hid hname =>
      have hparts : ofParts? i n = some ⟨id, name⟩ := ofParts?_eq_some.mpr ⟨hid, hname⟩
      cases n with
      | none => exact hparts
      | some d => exact hparts

theorem collection?_eq_some {d : Option Document} {listing : Option (List Job)} :
    collection? d = some listing ↔ WritesList d listing := by
  constructor
  · intro h
    unfold collection? at h
    split at h
    · cases h
      exact .absent
    · cases h
      exact .null
    · obtain ⟨jobs, hjobs, rfl⟩ := Option.map_eq_some_iff.mp h
      exact .array ((Text.mapM_eq_some.mp hjobs).imp fun _ _ => ofDocument?_eq_some.mp)
    · cases h
  · intro h
    cases h with
    | absent => rfl
    | null => rfl
    | array hjobs =>
      have := Text.mapM_eq_some.mpr (hjobs.imp fun _ _ => ofDocument?_eq_some.mpr)
      simp [collection?, this]

theorem answer?_eq_some {d : Document} {listing : Option (List Job)} :
    answer? d = some listing ↔ Answers d listing := by
  constructor
  · intro h
    unfold answer? at h
    split at h
    · obtain ⟨texts, htexts, h⟩ := Option.bind_eq_some_iff.mp h
      obtain ⟨hkeys, hvalues⟩ := textKeys?_eq_some htexts
      obtain ⟨value, hvalue, h⟩ := Option.bind_eq_some_iff.mp h
      rw [member?_eq_some, hvalues] at hvalue
      exact .members hkeys hvalue (collection?_eq_some.mp h)
    · cases h
      exact .places .absent
    · exact .places (collection?_eq_some.mp h)
    · cases h
  · intro h
    cases h with
    | members hkeys hvalue hlist =>
      obtain ⟨texts, htexts⟩ := exists_textKeys? hkeys
      have hmember := member?_eq_some.mpr (((textKeys?_eq_some htexts).2 _).trans hvalue)
      simp only [answer?, htexts, hmember, Option.bind_some, collection?_eq_some.mpr hlist]
    | @places value _ hlist =>
      have hread := collection?_eq_some.mpr hlist
      cases value with
      | none => exact hread
      | some d => exact hread

end Reading

section Rewriting

def known (keys : List String) (members : List (Key × Document)) : List (Key × Document) :=
  members.filter fun m => (stringOf? m.1).any keys.contains

def bare : Document → Document
  | .object ms => .object (known ["id", "name"] ms)
  | d => d

/-- Members by keys that are spelled plainly. -/
def plainMembers (texts : List (String × Document)) : List (Key × Document) :=
  texts.map fun m => (plainKey m.1, m.2)

/-- A job by its places, written by its members. -/
def named : Document → Document
  | .array [i] => .object (plainMembers [("id", i)])
  | .array [i, n] => .object (plainMembers [("id", i), ("name", n)])
  | d => d

def mapList (f : Document → Document) : Document → Document
  | .array items => .array (items.map f)
  | d => d

/-- An answer without its other members and with other jobs. -/
def mapAnswer (f : Document → Document) : Document → Document
  | .object ms => .object ((known ["jobs"] ms).map fun m => (m.1, mapList f m.2))
  | .array values => .array (values.map (mapList f))
  | d => d

def bareAnswer : Document → Document := mapAnswer bare

/-- An answer and its jobs by their members. -/
def namedAnswer (d : Document) : Document :=
  match mapAnswer named d with
  | .array [] => .object []
  | .array [value] => .object (plainMembers [("jobs", value)])
  | e => e

variable {ms : List (Key × Document)} {key : String} {keys : List String} {d : Document}
  {f : Document → Document} {listing : Option (List Job)} {job : Job}

theorem valuesOf_known (h : key ∈ keys) : valuesOf key (known keys ms) = valuesOf key ms := by
  have hmem : ∀ m : Key × Document, stringOf? m.1 = some key → (stringOf? m.1).any keys.contains := by
    intro m hm
    simp [hm, h]
  rw [valuesOf, known, List.filter_filter, valuesOf]
  congr 1
  exact List.filter_congr fun m _ => by
    by_cases hm : stringOf? m.1 = some key <;> simp [hm, h]

theorem TextKeys.known (h : TextKeys ms) (keys : List String) : TextKeys (known keys ms) :=
  fun m hm => h m (List.mem_filter.mp hm).1

theorem valuesOf_map (f : Document → Document) :
    valuesOf key (ms.map fun m => (m.1, f m.2)) = (valuesOf key ms).map f := by
  simp [valuesOf, List.filter_map, Function.comp_def]

theorem Writes.bare (h : Writes d job) : Writes (bare d) job := by
  cases h with
  | members hkeys hi hn hid hname =>
    have hi' := (valuesOf_known (by simp : "id" ∈ ["id", "name"])).trans hi
    have hn' := (valuesOf_known (by simp : "name" ∈ ["id", "name"])).trans hn
    exact .members (hkeys.known _) hi' hn' hid hname
  | places hid hname => exact .places hid hname

theorem textKeys_plainMembers (texts : List (String × Document)) : TextKeys (plainMembers texts) := by
  intro m hm
  obtain ⟨n, -, rfl⟩ := List.mem_map.mp hm
  simp [stringOf?_plainKey]

theorem valuesOf_plainMembers (texts : List (String × Document)) (key : String) :
    valuesOf key (plainMembers texts) = (texts.filter (·.1 = key)).map Prod.snd := by
  simp [valuesOf, plainMembers, List.filter_map, Function.comp_def, stringOf?_plainKey]

theorem Writes.named (h : Writes d job) : Writes (named d) job := by
  cases h with
  | members hkeys hi hn hid hname => exact .members hkeys hi hn hid hname
  | @places i n id name hid hname =>
    cases n with
    | none =>
      have hn : valuesOf "name" (plainMembers [("id", i)]) = (none : Option Document).toList :=
        valuesOf_plainMembers _ _
      exact .members (textKeys_plainMembers _) (valuesOf_plainMembers _ _) hn hid hname
    | some n =>
      have hn : valuesOf "name" (plainMembers [("id", i), ("name", n)]) = (some n).toList :=
        valuesOf_plainMembers _ _
      exact .members (textKeys_plainMembers _) (valuesOf_plainMembers _ _) hn hid hname

variable (hf : ∀ d job, Writes d job → Writes (f d) job)

include hf in
theorem WritesList.mapList {value : Option Document} (h : WritesList value listing) :
    WritesList (value.map (mapList f)) listing := by
  cases h with
  | absent => exact .absent
  | null => exact .null
  | array hjobs => exact .array (List.forall₂_map_left_iff.mpr (hjobs.imp fun _ _ => hf _ _))

include hf in
/-- Other members may be left out, and jobs may be written in another way. -/
theorem Answers.mapAnswer (h : Answers d listing) : Answers (mapAnswer f d) listing := by
  cases h with
  | @members ms value _ hkeys hvalue hlist =>
    refine .members ?_ ?_ (hlist.mapList hf)
    · intro m hm
      obtain ⟨n, hn, rfl⟩ := List.mem_map.mp hm
      exact hkeys.known _ n hn
    · rw [valuesOf_map, valuesOf_known (by simp), hvalue]
      cases value <;> rfl
  | @places value _ hlist =>
    have hlist := Answers.places (hlist.mapList hf)
    cases value with
    | none => exact hlist
    | some d => exact hlist

theorem Answers.named (h : Answers d listing) : Answers (namedAnswer d) listing := by
  have h := h.mapAnswer fun _ _ => Writes.named
  unfold namedAnswer
  generalize Job.mapAnswer Job.named d = e at h
  cases h with
  | members hkeys hvalue hlist => exact .members hkeys hvalue hlist
  | @places value _ hlist =>
    cases value with
    | none =>
      have hvalue : valuesOf "jobs" [] = (none : Option Document).toList := rfl
      exact .members (textKeys_plainMembers []) hvalue hlist
    | some d =>
      have hvalue : valuesOf "jobs" (plainMembers [("jobs", d)]) = (some d).toList :=
        valuesOf_plainMembers _ _
      exact .members (textKeys_plainMembers _) hvalue hlist

end Rewriting

section Existence

variable {ms : List (Key × Document)} {d : Document} {f : Document → Document}

theorem writable_known (h : Writable (.object ms)) (keys : List String) :
    Writable (.object (known keys ms)) := by
  rw [writable_object] at h ⊢
  intro m hm
  exact h m (List.mem_filter.mp hm).1

theorem writable_bare (h : Writable d) : Writable (bare d) := by
  cases d with
  | object ms => exact writable_known h _
  | _ => exact h

theorem writable_plainMembers {texts : List (String × Document)}
    (hkeys : ∀ m ∈ texts, ∀ c ∈ m.1.toList, Json.IsPlain c)
    (h : ∀ m ∈ texts, Writable m.2) : Writable (.object (plainMembers texts)) := by
  rw [writable_object]
  intro m hm
  obtain ⟨n, hn, rfl⟩ := List.mem_map.mp hm
  exact ⟨⟨_, tokenText_plainKey (hkeys n hn)⟩, h n hn⟩

theorem writable_named (h : Writable d) : Writable (named d) := by
  unfold named
  split
  · rw [writable_array] at h
    exact writable_plainMembers (by simp [Json.IsPlain]) (by simpa using h)
  · rw [writable_array] at h
    exact writable_plainMembers (by simp [Json.IsPlain]) (by simpa using h)
  · exact h

theorem writable_mapList (hf : ∀ d, Writable d → Writable (f d)) (h : Writable d) :
    Writable (mapList f d) := by
  cases d with
  | array items =>
    rw [mapList, writable_array]
    intro e he
    obtain ⟨d, hd, rfl⟩ := List.mem_map.mp he
    exact hf d (writable_array.mp h d hd)
  | _ => exact h

theorem writable_mapAnswer (hf : ∀ d, Writable d → Writable (f d)) (h : Writable d) :
    Writable (mapAnswer f d) := by
  cases d with
  | object ms =>
    rw [mapAnswer, writable_object]
    intro m hm
    obtain ⟨n, hn, rfl⟩ := List.mem_map.mp hm
    obtain ⟨hkey, hvalue⟩ := writable_object.mp (writable_known h _) n hn
    exact ⟨hkey, writable_mapList hf hvalue⟩
  | array values =>
    rw [mapAnswer, writable_array]
    intro e he
    obtain ⟨d, hd, rfl⟩ := List.mem_map.mp he
    exact writable_mapList hf (writable_array.mp h d hd)
  | _ => exact h

theorem writable_namedAnswer (h : Writable d) : Writable (namedAnswer d) := by
  have h := writable_mapAnswer (fun _ => writable_named) h
  unfold namedAnswer
  split
  · exact writable_object.mpr (by simp)
  · rename_i hvalue
    rw [hvalue, writable_array] at h
    exact writable_plainMembers (by simp [Json.IsPlain]) (by simpa using h)
  · exact h

end Existence

section Faults

/-- A job that gives a known member twice, has no id or names more than an id and a name by places. -/
inductive FaultyJob : Document → Prop
  | again {ms : List (Key × Document)} {key : String} :
      key ∈ ["id", "name"] → 2 ≤ (valuesOf key ms).length → FaultyJob (.object ms)
  | unidentified {ms : List (Key × Document)} : valuesOf "id" ms = [] → FaultyJob (.object ms)
  | long {items : List Document} : 2 < items.length → FaultyJob (.array items)

/-- An answer that gives its jobs twice, has a faulty job or names more than its jobs by places. -/
inductive Faulty : Document → Prop
  | again {ms : List (Key × Document)} : 2 ≤ (valuesOf "jobs" ms).length → Faulty (.object ms)
  | job {ms : List (Key × Document)} {items : List Document} {d : Document} :
      .array items ∈ valuesOf "jobs" ms → d ∈ items → FaultyJob d → Faulty (.object ms)
  | placed {items : List Document} {d : Document} :
      d ∈ items → FaultyJob d → Faulty (.array [.array items])
  | long {values : List Document} : 1 < values.length → Faulty (.array values)

variable {d : Document} {job : Job} {listing : Option (List Job)}

theorem FaultyJob.not_writes (h : FaultyJob d) : ¬Writes d job := by
  intro hw
  cases h with
  | again hkey hlength =>
    cases hw with
    | @members _ i n _ _ _ hi hn _ _ =>
      simp only [List.mem_cons, List.not_mem_nil, or_false] at hkey
      rcases hkey with rfl | rfl
      · rw [hi] at hlength
        exact absurd hlength (by simp)
      · rw [hn] at hlength
        cases n <;> exact absurd hlength (by simp)
  | unidentified hnone =>
    cases hw with
    | members _ hi _ _ _ => cases hnone.symm.trans hi
  | long hlength =>
    cases hw with
    | @places i n _ _ _ _ => cases n <;> exact absurd hlength (by simp)

theorem not_writesList {items : List Document} (hd : d ∈ items) (h : FaultyJob d) :
    ¬WritesList (some (.array items)) listing := by
  rintro ⟨⟩
  rename_i jobs hjobs
  induction hjobs with
  | nil => cases hd
  | cons hjob _ ih =>
    rcases List.mem_cons.mp hd with rfl | hd
    · exact h.not_writes hjob
    · exact ih hd

theorem Faulty.not_answers (h : Faulty d) : ¬Answers d listing := by
  intro ha
  cases h with
  | again hlength =>
    cases ha with
    | @members _ value _ _ hvalue _ =>
      rw [hvalue] at hlength
      cases value <;> exact absurd hlength (by simp)
  | @job ms items d hitems hd hjob =>
    cases ha with
    | @members _ value _ _ hvalue hlist =>
      rw [hvalue, Option.mem_toList] at hitems
      obtain rfl : value = some (.array items) := hitems
      exact not_writesList hd hjob hlist
  | @placed items d hd hjob =>
    generalize heq : Document.array [.array items] = e at ha
    cases ha with
    | members => cases heq
    | @places value _ hlist =>
      cases value with
      | none => cases heq
      | some v =>
        cases heq
        exact not_writesList hd hjob hlist
  | long hlength =>
    cases ha with
    | @places value _ _ => cases value <;> exact absurd hlength (by simp)

end Faults

/-- An answer is read by its known members alone, whatever its layout: what it lists is what they say, the
other members may be left out, and places may be spelled as members. Faults are always noticed. -/
theorem read_known_members {d : Document} (l : Layout d) :
    (∀ listing, readAnswer? l.body = some listing ↔ Answers d listing) ∧
      (∀ listing, Answers d listing →
        (Nonempty (Layout (bareAnswer d)) ∧
          ∀ bare : Layout (bareAnswer d), readAnswer? bare.body = readAnswer? l.body) ∧
        Nonempty (Layout (namedAnswer d)) ∧
          ∀ named : Layout (namedAnswer d), readAnswer? named.body = readAnswer? l.body) ∧
      (Faulty d → readAnswer? l.body = none) := by
  have hread : ∀ {e : Document} (l : Layout e), readAnswer? l.body = answer? e := by
    intro e l
    rw [readAnswer?, l.read?, Option.bind_some]
  refine ⟨fun listing => by rw [hread, answer?_eq_some], fun listing h => ?_, fun h => ?_⟩
  · have hsame : ∀ {e : Document}, Answers e listing → ∀ l' : Layout e,
        readAnswer? l'.body = readAnswer? l.body := by
      intro e he l'
      rw [hread, hread, answer?_eq_some.mpr he, answer?_eq_some.mpr h]
    refine ⟨⟨?_, hsame ?_⟩, ?_, hsame ?_⟩
    · exact (writable_mapAnswer (fun _ => writable_bare) l.writable).layout
    · exact h.mapAnswer fun _ _ => Writes.bare
    · exact (writable_namedAnswer l.writable).layout
    · exact h.named
  · rw [hread, Option.eq_none_iff_forall_ne_some]
    intro listing hlisting
    exact h.not_answers (answer?_eq_some.mp hlisting)

def oddItems : List Document :=
  [.object [
      (plainKey "id", .number ⟨false, [1, 8, 4, 4, 6, 7, 4, 4, 0, 7, 3, 7, 0, 9, 5, 5, 1, 6, 1, 5], [], none⟩),
      (plainKey "y", .null)],
    .array [.number ⟨false, [7], [], none⟩, .string (plainKey "n")]]

/-- Beside them there is a surrogate without its partner and a number that no float holds. -/
def oddAnswer : Document :=
  .object [
    (plainKey "x", .array [.string [.unit 0xD800], .number ⟨false, [1], [], some 999⟩]),
    (.unit 0x6A :: plainKey "obs", .array oddItems)]

theorem tokenText_half : TokenText (.string [.unit 0xD800]) "\"\\ud800\"".toList := by
  have hpart : Json.PartText (.unit 0xD800) ['\\', 'u', 'd', '8', '0', '0'] :=
    @Json.PartText.unit 'd' '8' '0' '0' 13 8 0 0 rfl rfl rfl rfl
  exact @TokenText.string [(_, _)] (List.forall_mem_singleton.mpr hpart)

theorem tokenText_huge : TokenText (.number ⟨false, [1], [], some 999⟩) ['1', 'e', '9', '9', '9'] := by
  have hexponent : Json.ExponentText (some 999) ['e', '9', '9', '9'] :=
    @Json.ExponentText.some 'e' [] 1 [9, 9, 9] (by decide) (by decide) (by decide) (by decide)
  exact .number (@Json.NumeralText.mk [1] [] _ _ false rfl (by decide) (by decide) hexponent)

theorem tokenText_jobs : TokenText (.string (.unit 0x6A :: plainKey "obs")) "\"\\u006aobs\"".toList := by
  have hunit : Json.PartText (.unit 0x6A) ['\\', 'u', '0', '0', '6', 'a'] :=
    @Json.PartText.unit '0' '0' '6' 'a' 0 0 6 10 rfl rfl rfl rfl
  exact Json.tokenText_escaped (p := (_, _)) hunit (by simp [Json.IsPlain])

def oddLayout : Layout oddAnswer where
  margin := [' ']
  words := [
    { Json.Word.openObject with blank := ['\n'], isBlank := by simp [Json.IsBlank] },
    .ofText "x" rfl, .colon, .openArray,
    ⟨_, _, [], tokenText_half, Json.isBlank_nil⟩, .comma,
    ⟨_, _, [], tokenText_huge, Json.isBlank_nil⟩, .closeArray,
    .comma, ⟨_, _, [' '], tokenText_jobs, Json.isBlank_space⟩,
    .colon, .openArray,
    .openObject, .ofText "id" rfl, .colon,
    .ofDigits [1, 8, 4, 4, 6, 7, 4, 4, 0, 7, 3, 7, 0, 9, 5, 5, 1, 6, 1, 5] rfl rfl,
    .comma, .ofText "y" rfl, .colon,
    ⟨_, _, [], .null, Json.isBlank_nil⟩, .closeObject,
    .comma, .openArray, .ofDigits [7] rfl rfl,
    .comma, .ofText "n" rfl, .closeArray,
    .closeArray, .closeObject]
  isBlank := Json.isBlank_space
  tokens_eq := by decide +kernel

theorem answers_oddAnswer : Answers oddAnswer (some [⟨18446744073709551615, none⟩, ⟨7, some "n"⟩]) := by
  have hkeys : ∀ {ms : List (Key × Document)}, (ms.all fun m => (stringOf? m.1).isSome) = true → TextKeys ms :=
    fun h m hm => List.all_eq_true.mp h m hm
  have hlarge : Writes (.object [
      (plainKey "id", .number ⟨false, [1, 8, 4, 4, 6, 7, 4, 4, 0, 7, 3, 7, 0, 9, 5, 5, 1, 6, 1, 5], [], none⟩),
      (plainKey "y", .null)]) ⟨18446744073709551615, none⟩ := by
    refine .members (hkeys rfl) rfl ?_ (.mk (by decide)) .absent
    rfl
  have hsmall : Writes (.array [.number ⟨false, [7], [], none⟩, .string (plainKey "n")]) ⟨7, some "n"⟩ :=
    .places (.mk (by decide)) (.text (stringOf?_plainKey "n"))
  refine .members (hkeys rfl) ?_ (.array (.cons hlarge (.cons hsmall .nil)))
  rfl

theorem odd_answer_read :
    String.ofList oddLayout.text =
        " \x7b\n\"x\":[\"\\ud800\",1e999],\"\\u006aobs\" :[\x7b\"id\":18446744073709551615,\"y\":null\x7d,[7,\"n\"]]\x7d" ∧
      readAnswer? oddLayout.body = some (some [⟨18446744073709551615, none⟩, ⟨7, some "n"⟩]) :=
  ⟨by rfl, ((read_known_members oddLayout).1 _).mpr answers_oddAnswer⟩

end AnnotationReport.Job