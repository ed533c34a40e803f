import AnnotationReport.Log.Entry
import AnnotationReport.Log.Pattern
import AnnotationReport.Text.Utf8

/-! # Log filters

A filter is a list of rules between commas. A rule is a level, a target, or a target and a level
with an equals sign between them; of the rules whose target begins an entry's target the longest
decides, of equal ones the last, and an entry passes if its level is within the rule's. Rules for
spans are understood, but entries outside of spans never pass by them.

A rule is read without the blanks around it, but its parts are cut out of the text with them: at the
same distances, in bytes, from the start of the text. So a rule with blanks before it has other
parts than the same rule without.
-/
namespace AnnotationReport.Log

/-- The rank up to which a rule lets entries pass; zero lets none pass. -/
structure Rule where
  target : List Char
  fields : List (List Char)
  rank : Nat
deriving DecidableEq, Repr

abbrev Filter := List Rule

namespace Filter

def variableName : String := "RUST_LOG"

def fallback : String := "info"

def names : List (String × Nat) :=
  [("off", 0), ("error", 1), ("warn", 2), ("info", 3), ("debug", 4), ("trace", 5)]

/-- The number of a level, which a plus sign may precede. -/
def numeral? (text : List Char) : Option Nat :=
  let digits := if text.head? = some '+' then text.drop 1 else text
  if digits.isEmpty then none else (Text.number? 10 digits).filter (· ≤ 5)

/-- The rank of a level, by number or by name in any case. -/
def level? (text : List Char) : Option Nat :=
  (numeral? text).or (names.lookup (String.ofList (text.map Char.toLower)))

/-- What one rule comes to; one that asks for a span or the value of a field comes to none. -/
abbrev Reading := Option Rule

def trimmed (text : List Char) : List Char :=
  ((text.dropWhile Pattern.isBlank).reverse.dropWhile Pattern.isBlank).reverse

def width (text : List Char) : Nat := (Text.Utf8.encode text).length

/-- The part of a text that a number of bytes takes, some bytes from its start. -/
def cut (text : List Char) (start count : Nat) : Option (List Char) :=
  Text.Utf8.decode? (((Text.Utf8.encode text).drop start).take count)

def cutFrom (text : List Char) (start : Nat) : Option (List Char) := cut text start (width text)

/-- What follows a target or a span, from `start` on: nothing, or a level after an equals sign. No
text for the level lets all pass. -/
def suffix? (text : List Char) (start : Nat) : List Char → Option Nat
  | [] => some 5
  | '=' :: _ => (cutFrom text (start + 1)).bind fun l => if l.isEmpty then some 5 else level? l
  | _ => none

def isNumeral (text : List Char) : Bool :=
  let exponent := (text.dropWhile fun c => c != 'e' && c != 'E').drop 1
  let plain := text.takeWhile fun c => c != 'e' && c != 'E'
  let digits := plain.filter (· != '.')
  let power := if exponent.head?.any fun c => c = '+' || c = '-' then exponent.drop 1 else exponent
  !digits.isEmpty && digits.all Char.isDigit && plain.count '.' ≤ 1 &&
    (plain.length = text.length || (!power.isEmpty && power.all Char.isDigit))

/-- A number with a plus sign before it, which is no pattern. -/
def isPositive : List Char → Bool
  | '+' :: r =>
    isNumeral r ||
      ["inf", "infinity", "nan"].contains (String.ofList (r.map Char.toLower))
  | _ => false

/-- The name of a field and whether a value is asked for, which is a number or a pattern. It ends at
a second equals sign. -/
def readField (text : List Char) : Option (List Char × Bool) :=
  let name := text.takeWhile (· != '=')
  match text.drop name.length with
  | [] => if text.isEmpty then none else some (name, false)
  | _ :: r =>
    let value := r.takeWhile (· != '=')
    if isPositive value || Pattern.isValid value then some (name, true) else none

/-- A rule from the bracket on that stands some bytes after the start: the name of a span, fields,
and a level. -/
def readSpan (target text : List Char) (start : Nat) (rest : List Char) : Option Reading := do
  let inner := rest.takeWhile fun c => c != ']' && c != '\x7b'
  let after := start + 1 + width inner
  match rest.drop inner.length with
  | ']' :: r =>
    let _ ← cut text (start + 1) (width inner)
    let _ ← suffix? text (after + 1) r
    some none
  | '\x7b' :: r =>
    let raw := r.takeWhile (· != '\x7d')
    match r.drop raw.length with
    | '\x7d' :: ']' :: s =>
      let span ← cut text (start + 1) (width inner)
      let (name, asked) ← readField (← cut text (after + 1) (width raw))
      let rank ← suffix? text (after + 1 + width raw + 2) s
      some (if span.isEmpty && !asked then some ⟨target, [name], rank⟩ else none)
    | _ => none
  | _ => none

def startsRule (c : Char) : Bool :=
  Text.Alphanumeric.holds c || c = '-' || c = ':' || c = '_'

def readRule (text : List Char) : Option Reading := do
  let bare := trimmed text
  let name := bare.takeWhile fun c => c != '=' && c != '['
  match bare.drop name.length with
  | '[' :: r =>
    if name.head?.all startsRule then readSpan (← cut text 0 (width name)) text (width name) r
    else none
  | rest =>
    if !name.head?.any startsRule then none
    else if rest.isEmpty then
      match level? text with
      | some rank => some (some ⟨[], [], rank⟩)
      | none => some (some ⟨text, [], 5⟩)
    else
      let target ← cut text 0 (width name)
      let rank ← suffix? text (width name) rest
      some (some ⟨target, [], rank⟩)

def ofText? (text : String) : Option Filter :=
  (((text.toList.splitOn ',').filter (!·.isEmpty)).mapM readRule).map (·.filterMap id)

def ofVariable (text : Option String) : Filter :=
  ((text.bind ofText?).or (ofText? fallback)).getD []

/-- The name of the only field that entries have. -/
def messageField : List Char := "message".toList

def concerns (r : Rule) (e : Entry) : Bool :=
  r.target.isPrefixOf e.target.toList && r.fields.all (· = messageField)

/-- Whether a rule decides before another one, or in its place. -/
def outranks (r q : Rule) : Bool :=
  q.target.length < r.target.length ||
    (q.target.length = r.target.length && q.fields.length ≤ r.fields.length)

def deciding? (f : Filter) (e : Entry) : Option Rule :=
  (f.filter (concerns · e)).foldl (fun best r =>
    match best with
    | some q => if outranks r q then some r else some q
    | none => some r) none

def passes (f : Filter) (e : Entry) : Bool :=
  (deciding? f e).any fun r => e.level.rank ≤ r.rank

end Filter
end AnnotationReport.Log
