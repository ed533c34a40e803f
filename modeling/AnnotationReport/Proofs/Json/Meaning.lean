import AnnotationReport.Proofs.Json.Decimals
import AnnotationReport.Proofs.Json.RoundTrip

/-! # What JSON texts mean

The meaning of a document keeps its members in order, takes strings as texts and numbers as exact ratios.
The text of a value means what the value does; reading a document changes the ratios of its numbers at most.
-/
namespace AnnotationReport.Json

/-- A JSON value with exact numbers, and with the members of objects in order. -/
inductive Meaning where
  | null
  | bool (b : Bool)
  | number (r : ℚ)
  | string (s : String)
  | array (items : List Meaning)
  | object (members : List (String × Meaning))

namespace Document

mutual

/-- The meaning of a document, if all its strings are texts. Each numeral stands for a ratio. -/
def meaning? (ratio : Numeral → ℚ) : Document → Option Meaning
  | null => some .null
  | bool b => some (.bool b)
  | number n => some (.number (ratio n))
  | string ps => (stringOf? ps).map .string
  | array items => (itemsMeaning? ratio items).map .array
  | object members => (membersMeaning? ratio members).map .object

def itemsMeaning? (ratio : Numeral → ℚ) : List Document → Option (List Meaning)
  | [] => some []
  | d :: r => (meaning? ratio d).bind fun m => (itemsMeaning? ratio r).map (m :: ·)

def membersMeaning? (ratio : Numeral → ℚ) : List (Key × Document) → Option (List (String × Meaning))
  | [] => some []
  | m :: r => (memberMeaning? ratio m).bind fun n => (membersMeaning? ratio r).map (n :: ·)

def memberMeaning? (ratio : Numeral → ℚ) : Key × Document → Option (String × Meaning)
  | (k, d) => (stringOf? k).bind fun key => (meaning? ratio d).map fun m => (key, m)

end

mutual

/-- The numerals in a document. -/
def numerals : Document → List Numeral
  | number n => [n]
  | array items => itemsNumerals items
  | object members => membersNumerals members
  | _ => []

def itemsNumerals : List Document → List Numeral
  | [] => []
  | d :: r => numerals d ++ itemsNumerals r

def membersNumerals : List (Key × Document) → List Numeral
  | [] => []
  | m :: r => memberNumerals m ++ membersNumerals r

def memberNumerals : Key × Document → List Numeral
  | (_, d) => numerals d

end

/-- No object, at any level, has two keys that are the same text. -/
inductive DistinctKeys : Document → Prop
  | null : DistinctKeys null
  | bool (b : Bool) : DistinctKeys (bool b)
  | number (n : Numeral) : DistinctKeys (number n)
  | string (ps : List StringPart) : DistinctKeys (string ps)
  | array {items : List Document} : (∀ d ∈ items, DistinctKeys d) → DistinctKeys (array items)
  | object {members : List (Key × Document)} :
      (members.map fun m => stringOf? m.1).Nodup → (∀ m ∈ members, DistinctKeys m.2) →
        DistinctKeys (object members)

section Ratios

variable {f g : Numeral → ℚ}

-- The induction follows `meaning?`. What is known to have a meaning has the same one with other ratios
-- just if the ratios of its numerals are the same.
mutual

theorem meaning?_eq_iff {m : Meaning} : ∀ {d : Document}, d.meaning? g = some m →
    (d.meaning? f = some m ↔ ∀ n ∈ d.numerals, f n = g n)
  | null, h => iff_of_true h (fun _ hn => by cases hn)
  | bool _, h => iff_of_true h (fun _ hn => by cases hn)
  | number n, h => by
    cases h
    simp [meaning?, numerals]
  | string _, h => iff_of_true h (fun _ hn => by cases hn)
  | array items, h => by
    obtain ⟨ms, hms, rfl⟩ := Option.map_eq_some_iff.mp h
    rw [numerals, ← itemsMeaning?_eq_iff hms]
    simp [meaning?]
  | object members, h => by
    obtain ⟨ms, hms, rfl⟩ := Option.map_eq_some_iff.mp h
    rw [numerals, ← membersMeaning?_eq_iff hms]
    simp [meaning?]

theorem itemsMeaning?_eq_iff {ms : List Meaning} : ∀ {items : List Document},
    itemsMeaning? g items = some ms → (itemsMeaning? f items = some ms ↔ ∀ n ∈ itemsNumerals items, f n = g n)
  | [], h => by
    cases h
    simp [itemsMeaning?, itemsNumerals]
  | d :: r, h => by
    obtain ⟨m, hm, h⟩ := Option.bind_eq_some_iff.mp h
    obtain ⟨ms, hms, rfl⟩ := Option.map_eq_some_iff.mp h
    rw [itemsNumerals, List.forall_mem_append, ← meaning?_eq_iff hm, ← itemsMeaning?_eq_iff hms]
    simp [itemsMeaning?, Option.bind_eq_some_iff]

theorem membersMeaning?_eq_iff {ms : List (String × Meaning)} : ∀ {members : List (Key × Document)},
    membersMeaning? g members = some ms →
      (membersMeaning? f members = some ms ↔ ∀ n ∈ membersNumerals members, f n = g n)
  | [], h => by
    cases h
    simp [membersMeaning?, membersNumerals]
  | m :: r, h => by
    obtain ⟨n, hn, h⟩ := Option.bind_eq_some_iff.mp h
    obtain ⟨ms, hms, rfl⟩ := Option.map_eq_some_iff.mp h
    rw [membersNumerals, List.forall_mem_append, ← memberMeaning?_eq_iff hn, ← membersMeaning?_eq_iff hms]
    simp [membersMeaning?, Option.bind_eq_some_iff]

theorem memberMeaning?_eq_iff {p : String × Meaning} : ∀ {m : Key × Document},
    memberMeaning? g m = some p → (memberMeaning? f m = some p ↔ ∀ n ∈ memberNumerals m, f n = g n)
  | (k, d), h => by
    obtain ⟨key, hkey, h⟩ := Option.bind_eq_some_iff.mp h
    obtain ⟨m, hm, rfl⟩ := Option.map_eq_some_iff.mp h
    rw [memberNumerals, ← meaning?_eq_iff hm]
    simp [memberMeaning?, hkey]

end

end Ratios
end Document

section Values

mutual

/-- The meaning of a value. A floating point number means what is shown of it. -/
def meaning : Json → Meaning
  | null => .null
  | bool b => .bool b
  | integer n => .number n
  | float x => .number x.shown
  | string s => .string s
  | array items => .array (itemsMeaning items)
  | object members => .object (membersMeaning members)

def itemsMeaning : List Json → List Meaning
  | [] => []
  | v :: r => meaning v :: itemsMeaning r

def membersMeaning : List (String × Json) → List (String × Meaning)
  | [] => []
  | m :: r => memberMeaning m :: membersMeaning r

def memberMeaning : String × Json → String × Meaning
  | (k, v) => (k, meaning v)

end

/-- The ratio that is printed where a numeral was read: its integer, or what is shown of the floating point
number that it is read as. -/
def Numeral.printed (n : Numeral) : ℚ :=
  match n.integer? with
  | some i => i
  | none => n.toBinary64?.elim 0 Binary64.shown

namespace Numeral

variable {n : Numeral}

/-- Integers of 64 bits are printed as they are. -/
theorem printed_of_integer (h : n.integer? ≠ none) : n.printed = n.value := by
  obtain ⟨i, hi⟩ := Option.ne_none_iff_exists'.mp h
  rw [printed, hi, value_of_integer? hi]

/-- So are short decimals. -/
theorem printed_of_short (h : n.Short) : n.printed = n.value := by
  cases hi : n.integer? with
  | some i => exact printed_of_integer (by rw [hi]; exact Option.some_ne_none i)
  | none =>
    obtain ⟨x, hx, hshown⟩ := exists_shown h
    rw [printed, hi, hx]
    exact hshown

end Numeral

end Values

section Reading

open Document (meaning? itemsMeaning? membersMeaning? memberMeaning?)

theorem Numeral.meaning_of_value? {n : Numeral} {v : Json} (h : n.value? = some v) :
    v.meaning = .number n.printed := by
  simp only [Numeral.value?] at h
  unfold Numeral.printed
  cases hn : n.integer? with
  | some i =>
    rw [hn] at h
    cases h
    rfl
  | none =>
    rw [hn] at h
    obtain ⟨x, hx, rfl⟩ := Option.map_eq_some_iff.mp h
    rw [hx]
    rfl

theorem nodup_of_membersOf? {depth : Nat} {members : List (Key × Document)} {ms : List (String × Json)}
    (h : membersOf? depth members = some ms) (hkeys : (members.map fun m => stringOf? m.1).Nodup) :
    (ms.map Prod.fst).Nodup := by
  have hmap : members.map (fun m => stringOf? m.1) = (ms.map Prod.fst).map some := by
    clear hkeys
    induction members generalizing ms with
    | nil =>
      cases h
      rfl
    | cons m r ih =>
      obtain ⟨k, d⟩ := m
      obtain ⟨p, hp, h⟩ := Option.bind_eq_some_iff.mp h
      obtain ⟨ps, hps, rfl⟩ := Option.map_eq_some_iff.mp h
      obtain ⟨key, hkey, hp⟩ := Option.bind_eq_some_iff.mp hp
      obtain ⟨v, -, rfl⟩ := Option.map_eq_some_iff.mp hp
      rw [List.map_cons, List.map_cons, List.map_cons, ih hps, hkey]
  rw [hmap] at hkeys
  exact hkeys.of_map some

-- The value of a document with different keys means what the document does, with the ratios that are printed.
mutual

theorem meaning?_of_ofDocument? {depth : Nat} {v : Json} : ∀ {d : Document},
    ofDocument? depth d = some v → d.DistinctKeys → d.meaning? Numeral.printed = some v.meaning
  | .null, h, _ => by
    cases h
    rfl
  | .bool b, h, _ => by
    cases h
    rfl
  | .number n, h, _ => congrArg some (Numeral.meaning_of_value? h).symm
  | .string ps, h, _ => by
    obtain ⟨s, hs, rfl⟩ := Option.map_eq_some_iff.mp h
    rw [meaning?, hs]
    rfl
  | .array items, h, hkeys => by
    rw [ofDocument?] at h
    split at h
    · cases h
    · obtain ⟨vs, hvs, rfl⟩ := Option.map_eq_some_iff.mp h
      cases hkeys with
      | array hitems => rw [meaning?, itemsMeaning?_of_itemsOf? hvs hitems, Option.map_some, meaning]
  | .object members, h, hkeys => by
    rw [ofDocument?] at h
    split at h
    · cases h
    · obtain ⟨ms, hms, rfl⟩ := Option.map_eq_some_iff.mp h
      cases hkeys with
      | object hnodup hmembers =>
        rw [lastValues_of_nodup (nodup_of_membersOf? hms hnodup), meaning?,
          membersMeaning?_of_membersOf? hms hmembers, Option.map_some, meaning]

theorem itemsMeaning?_of_itemsOf? {depth : Nat} {vs : List Json} : ∀ {items : List Document},
    itemsOf? depth items = some vs → (∀ d ∈ items, d.DistinctKeys) →
      itemsMeaning? Numeral.printed items = some (itemsMeaning vs)
  | [], h, _ => by
    cases h
    rfl
  | d :: r, h, hkeys => by
    obtain ⟨v, hv, h⟩ := Option.bind_eq_some_iff.mp h
    obtain ⟨ws, hws, rfl⟩ := Option.map_eq_some_iff.mp h
    obtain ⟨hd, hr⟩ := List.forall_mem_cons.mp hkeys
    rw [itemsMeaning?, meaning?_of_ofDocument? hv hd, itemsMeaning?_of_itemsOf? hws hr]
    rfl

theorem membersMeaning?_of_membersOf? {depth : Nat} {ms : List (String × Json)} :
    ∀ {members : List (Key × Document)}, membersOf? depth members = some ms →
      (∀ m ∈ members, m.2.DistinctKeys) →
        membersMeaning? Numeral.printed members = some (membersMeaning ms)
  | [], h, _ => by
    cases h
    rfl
  | m :: r, h, hkeys => by
    obtain ⟨n, hn, h⟩ := Option.bind_eq_some_iff.mp h
    obtain ⟨ns, hns, rfl⟩ := Option.map_eq_some_iff.mp h
    obtain ⟨hm, hr⟩ := List.forall_mem_cons.mp hkeys
    rw [membersMeaning?, memberMeaning?_of_memberOf? hn hm, membersMeaning?_of_membersOf? hns hr]
    rfl

theorem memberMeaning?_of_memberOf? {depth : Nat} {n : String × Json} : ∀ {m : Key × Document},
    memberOf? depth m = some n → m.2.DistinctKeys →
      memberMeaning? Numeral.printed m = some (memberMeaning n)
  | (k, d), h, hkeys => by
    obtain ⟨key, hkey, h⟩ := Option.bind_eq_some_iff.mp h
    obtain ⟨v, hv, rfl⟩ := Option.map_eq_some_iff.mp h
    rw [memberMeaning?, hkey, meaning?_of_ofDocument? hv hkeys]
    rfl

end

end Reading

section Printing

/-- A document that the text of a value is read as, and that means what the value does. -/
structure Says (v : Json) (d : Document) : Prop where
  spells : Spells (render v) d.tokens
  means : d.meaning? Numeral.value = some v.meaning

structure MemberSays (m : String × Json) (n : Key × Document) : Prop where
  spells : Spells (renderMember m) (Document.memberToken n)
  means : Document.memberMeaning? Numeral.value n = some (memberMeaning m)

variable {items : List Json} {documents : List Document} {members : List (String × Json)}
  {others : List (Key × Document)}

theorem Says.array (h : List.Forall₂ Says items documents) : Says (array items) (.array documents) where
  spells :=
    Spells.after_mark rfl ((spells_items (h.imp fun _ _ hv => hv.spells)).append_mark rfl spells_nil)
  means := by
    have hitems : Document.itemsMeaning? Numeral.value documents = some (itemsMeaning items) := by
      induction h with
      | nil => rfl
      | cons hv _ ih =>
        rw [Document.itemsMeaning?, hv.means, ih]
        rfl
    rw [Document.meaning?, hitems]
    rfl

theorem Says.object (h : List.Forall₂ MemberSays members others) : Says (object members) (.object others) where
  spells :=
    Spells.after_mark rfl ((spells_members (h.imp fun _ _ hm => hm.spells)).append_mark rfl spells_nil)
  means := by
    have hmembers : Document.membersMeaning? Numeral.value others = some (membersMeaning members) := by
      induction h with
      | nil => rfl
      | cons hm _ ih =>
        rw [Document.membersMeaning?, hm.means, ih]
        rfl
    rw [Document.meaning?, hmembers]
    rfl

-- The text of every value has a meaning, that of the value.
mutual

theorem exists_says : ∀ v : Json, ∃ d, Says v d
  | .null => ⟨.null, spells_null, rfl⟩
  | .bool true => ⟨.bool true, spells_true, rfl⟩
  | .bool false => ⟨.bool false, spells_false, rfl⟩
  | .integer i => by
    refine ⟨.number (.ofInt i), spells_numeral (Numeral.ofChars?_integerText i), ?_⟩
    rw [Document.meaning?, Numeral.value_ofInt]
    rfl
  | .float x => by
    obtain ⟨n, hn, hvalue⟩ := Numeral.ofChars?_floatText x
    refine ⟨.number n, spells_numeral hn, ?_⟩
    rw [Document.meaning?, hvalue]
    rfl
  | .string s => by
    obtain ⟨parts, hparts, hs⟩ := spells_quote s
    refine ⟨.string parts, hs, ?_⟩
    rw [Document.meaning?, hparts]
    rfl
  | .array items => by
    obtain ⟨documents, h⟩ := exists_items_say items
    exact ⟨.array documents, .array h⟩
  | .object members => by
    obtain ⟨others, h⟩ := exists_members_say members
    exact ⟨.object others, .object h⟩

theorem exists_items_say : ∀ items : List Json, ∃ documents, List.Forall₂ Says items documents
  | [] => ⟨[], .nil⟩
  | v :: r => by
    obtain ⟨d, hd⟩ := exists_says v
    obtain ⟨documents, hr⟩ := exists_items_say r
    exact ⟨d :: documents, .cons hd hr⟩

theorem exists_members_say : ∀ members : List (String × Json),
    ∃ others, List.Forall₂ MemberSays members others
  | [] => ⟨[], .nil⟩
  | m :: r => by
    obtain ⟨n, hn⟩ := exists_member_says m
    obtain ⟨others, hr⟩ := exists_members_say r
    exact ⟨n :: others, .cons hn hr⟩

theorem exists_member_says : ∀ m : String × Json, ∃ n, MemberSays m n
  | (k, v) => by
    obtain ⟨d, hd⟩ := exists_says v
    obtain ⟨key, hkey, hquoted⟩ := spells_quote k
    refine ⟨(key, d), hquoted.append_mark rfl hd.spells, ?_⟩
    rw [Document.memberMeaning?, hkey, hd.means]
    rfl

end

/-- The text of what was read from a document means what the document does, with the ratios that are printed. -/
theorem exists_meaning {depth : Nat} {d : Document} {v : Json} (h : ofDocument? depth d = some v)
    (hkeys : d.DistinctKeys) : ∃ line m, Document.read? (Text.Utf8.encode (render v)) = some line ∧
      line.meaning? Numeral.value = some m ∧ d.meaning? Numeral.printed = some m := by
  obtain ⟨line, hline⟩ := exists_says v
  exact ⟨line, v.meaning, Document.read?_of_tokens? hline.spells.tokens?, hline.means,
    meaning?_of_ofDocument? h hkeys⟩

end Printing
end AnnotationReport.Json
