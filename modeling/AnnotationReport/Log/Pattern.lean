import AnnotationReport.Text.Alphanumeric
import AnnotationReport.Text.Digits

/-! # Patterns

Which texts are patterns that a filter can match values with: regular expressions over Unicode text,
without counted repetitions, back references, and what asks for tables of Unicode properties (named
classes, boundaries of words and indifference to case, unless they are confined to ASCII). No
pattern may match half a character.
-/
namespace AnnotationReport.Log.Pattern

/-- How a part of a pattern is read: with blanks and remarks in it, without regard to case, and
over characters, not bytes. -/
structure Mode where
  spaced : Bool
  caseless : Bool
  unicode : Bool
deriving DecidableEq, Repr

def Mode.start : Mode := ⟨false, false, true⟩

/-- A character is not written without regard to case unless this is a matter of ASCII. -/
def Mode.folds (m : Mode) : Bool := m.caseless && m.unicode

def isBlank (c : Char) : Bool :=
  Text.inRanges c.toNat [(0x09, 0x0D), (0x20, 0x20), (0x85, 0x85), (0xA0, 0xA0), (0x1680, 0x1680),
    (0x2000, 0x200A), (0x2028, 0x2029), (0x202F, 0x202F), (0x205F, 0x205F), (0x3000, 0x3000)]

/-- The text without the blanks and remarks at its start. A remark goes from a hash sign to the end
of its line. -/
def withoutBlanks : Bool → List Char → List Char
  | _, [] => []
  | remark, c :: r =>
    if remark then withoutBlanks (c != '\n') r
    else if isBlank c then withoutBlanks false r
    else if c = '#' then withoutBlanks true r
    else c :: r

def skip (m : Mode) (text : List Char) : List Char :=
  if m.spaced then withoutBlanks false text else text

/-! ## Escapes -/

inductive Escape where
  | character (c : Char)
  | kind
  | place
deriving DecidableEq, Repr

def hexDigits (m : Mode) : Nat → List Char → Option (List Char × List Char)
  | 0, text => some ([], text)
  | count + 1, text =>
    match skip m text with
    | c :: r =>
      if (Text.hexValue? c).isSome then
        (hexDigits m count r).map fun (digits, rest) => (c :: digits, rest)
      else none
    | [] => none

/-- A character by its number; a byte above ASCII is no character. -/
def numbered (m : Mode) (count : Nat) (text : List Char) : Option (Escape × List Char) := do
  let (digits, rest) ← hexDigits m count text
  let n ← Text.number? 16 digits
  if n.isValidChar ∧ (m.unicode ∨ count ≠ 2 ∨ n < 0x80) then
    some (.character (Char.ofNat n), skip m rest)
  else none

def controlLetters : List (Char × Nat) :=
  [('a', 0x07), ('f', 0x0C), ('t', 0x09), ('n', 0x0A), ('r', 0x0D), ('v', 0x0B)]

def readEscape (m : Mode) : List Char → Option (Escape × List Char)
  | [] => none
  | 'x' :: r => numbered m 2 r
  | 'u' :: r => numbered m 4 r
  | 'U' :: r => numbered m 8 r
  | c :: r =>
    match controlLetters.lookup c with
    | some n => some (.character (Char.ofNat n), r)
    | none =>
      if ['d', 's', 'w'].contains c then if m.unicode then none else some (.kind, r)
      else if ['A', 'z'].contains c then some (.place, r)
      else if ['b', 'B', '<', '>'].contains c then if m.unicode then none else some (.place, r)
      else if c.toNat < 0x80 ∧ !c.isAlphanum then some (.character c, r)
      else none

/-! ## Brackets -/

/-- One member of a bracketed class: a character, or a class of its own. -/
def readMember (m : Mode) : List Char → Option (Option Char × List Char)
  | [] => none
  | '\\' :: r =>
    match readEscape m r with
    | some (.character c, rest) => some (some c, rest)
    | some (.kind, rest) => some (none, rest)
    | _ => none
  | c :: r => some (some c, r)

/-- Over bytes only ASCII is in a class. -/
def allowedMember (m : Mode) : Option Char → Bool
  | some c => m.unicode || c.toNat < 0x80
  | none => true

/-- A member or a range of characters, from the lower to the higher. -/
def readRange (m : Mode) (text : List Char) : Option (List Char) := do
  let (first, rest) ← readMember m text
  let rest := skip m rest
  if !allowedMember m first ∨ rest.isEmpty then none
  else
    match rest with
    | '-' :: r =>
      let next := skip m r
      if next.head? = some ']' ∨ next.head? = some '-' then some rest
      else do
        let (last, rest) ← readMember m next
        match first, last with
        | some low, some high =>
          if low ≤ high ∧ allowedMember m last then some rest else none
        | _, _ => none
    | _ => some rest

def classNames : List String :=
  ["alnum", "alpha", "ascii", "blank", "cntrl", "digit", "graph", "lower", "print", "punct",
    "space", "upper", "word", "xdigit"]

/-- A named class between colons, if one is there, and whether it is the complement of its name. -/
def namedClass? (text : List Char) : Option (Bool × List Char) :=
  match text with
  | '[' :: ':' :: r =>
    let complement := r.head? = some '^'
    let r := if complement then r.drop 1 else r
    match r.dropWhile (· != ':') with
    | ':' :: ']' :: rest =>
      if classNames.contains (String.ofList (r.takeWhile (· != ':'))) then some (complement, rest)
      else none
    | _ => none
  | _ => none

def dropHyphens (m : Mode) : Nat → List Char → List Char
  | 0, text => text
  | fuel + 1, text =>
    match text with
    | '-' :: r => dropHyphens m fuel (skip m r)
    | _ => text

/-- What follows an opening bracket, a caret, and the members that are taken as they stand: hyphens
and, if there is none, a closing bracket. Over bytes there is no complement. -/
def openBracket (m : Mode) (text : List Char) : Option (List Char) :=
  let text := skip m text
  let complement := text.head? = some '^'
  let text := if complement then skip m (text.drop 1) else text
  let rest := dropHyphens m text.length text
  let rest := match text, rest with
    | ']' :: r, _ => skip m r
    | _, _ => rest
  if rest.isEmpty ∨ (complement ∧ !m.unicode) then none else some rest

def operators : List (List Char) := ["&&", "--", "~~"].map String.toList

/-- What follows the bracket that closes the first of `depth` classes. -/
def closeBrackets (m : Mode) : Nat → Nat → List Char → Option (List Char)
  | 0, _, _ => none
  | fuel + 1, depth, text =>
    let text := skip m text
    match namedClass? text with
    | some (complement, rest) =>
      if complement ∧ !m.unicode then none else closeBrackets m fuel depth rest
    | none =>
      match text with
      | [] => none
      | '[' :: r => (openBracket m r).bind (closeBrackets m fuel (depth + 1))
      | ']' :: r => if depth ≤ 1 then some r else closeBrackets m fuel (depth - 1) r
      | c :: r =>
        if operators.contains (c :: r.take 1) then closeBrackets m fuel depth (r.drop 1)
        else (readRange m text).bind (closeBrackets m fuel depth)

def readBrackets (m : Mode) (text : List Char) : Option (List Char) :=
  if m.folds then none else (openBracket m text).bind (closeBrackets m (text.length + 1) 1)

/-! ## Groups -/

def modeLetters : List Char := ['i', 'm', 's', 'U', 'u', 'R', 'x']

/-- The mode that letters turn on, and behind a hyphen off. -/
def Mode.set (m : Mode) (on : Bool) : Char → Mode
  | 'x' => { m with spaced := on }
  | 'i' => { m with caseless := on }
  | 'u' => { m with unicode := on }
  | _ => m

def Mode.setAll (m : Mode) (letters : List Char) : Mode :=
  let off := (letters.dropWhile (· != '-')).drop 1
  off.foldl (·.set false) ((letters.takeWhile (· != '-')).foldl (·.set true) m)

/-- No letter is repeated, and there is at most one hyphen, which is not the last. -/
def validLetters (letters : List Char) : Bool :=
  letters.all (fun c => modeLetters.contains c || c = '-') &&
    letters.all (fun c => letters.count c ≤ 1) && letters.getLast? != some '-'

def startsName (c : Char) : Bool := c = '_' || (Text.Alphanumeric.holds c && !c.isDigit)

def continuesName (c : Char) : Bool :=
  ['_', '.', '[', ']'].contains c || Text.Alphanumeric.holds c

/-- How far a pattern is read: the modes of the groups that are open, the names of groups, and
whether something stands before that can be repeated. -/
structure Progress where
  mode : Mode
  outer : List Mode
  names : List (List Char)
  repeatable : Bool
deriving DecidableEq, Repr

def Progress.start : Progress := ⟨.start, [], [], false⟩

def Progress.descend (p : Progress) : Progress :=
  { p with outer := p.mode :: p.outer, repeatable := false }

def openNamed (p : Progress) (text : List Char) : Option (Progress × List Char) :=
  let name := text.takeWhile (· != '>')
  match text.drop name.length with
  | '>' :: r =>
    if name.head?.any startsName && name.all continuesName && !p.names.contains name then
      some ({ p with names := name :: p.names }.descend, r)
    else none
  | _ => none

def openMode (p : Progress) (text : List Char) : Option (Progress × List Char) :=
  let letters := text.takeWhile fun c => c != ':' && c != ')'
  let mode := p.mode.setAll letters
  if !validLetters letters then none
  else match text.drop letters.length with
    | ':' :: r => some ({ p.descend with mode := mode }, r)
    | ')' :: r =>
      if letters.isEmpty then none else some ({ p with mode := mode, repeatable := false }, r)
    | _ => none

def openGroup (p : Progress) (text : List Char) : Option (Progress × List Char) :=
  match skip p.mode text with
  | '?' :: 'P' :: '<' :: r => openNamed p r
  | '?' :: '<' :: r => openNamed p r
  | '?' :: r => openMode p r
  | r => some (p.descend, r)

/-! ## Patterns -/

def Progress.item (p : Progress) : Progress := { p with repeatable := true }

def step (p : Progress) (c : Char) (r : List Char) : Option (Progress × List Char) :=
  match c with
  | '(' => openGroup p r
  | ')' =>
    match p.outer with
    | [] => none
    | m :: outer => some (⟨m, outer, p.names, true⟩, r)
  | '|' => some ({ p with repeatable := false }, r)
  | '[' => (readBrackets p.mode r).map fun rest => (p.item, rest)
  | '?' | '*' | '+' =>
    if p.repeatable then some (p, if r.head? = some '?' then r.drop 1 else r) else none
  | '\x7b' => none
  | '.' => if p.mode.unicode then some (p.item, r) else none
  | '^' | '$' => some (p.item, r)
  | '\\' =>
    match readEscape p.mode r with
    | some (.character _, rest) => if p.mode.folds then none else some (p.item, rest)
    | some (_, rest) => some (p.item, rest)
    | none => none
  | _ => if p.mode.folds then none else some (p.item, r)

/-- Reads a text to its end. Each step takes a character at least. -/
def run : Nat → Progress → List Char → Bool
  | 0, _, _ => false
  | fuel + 1, p, text =>
    match skip p.mode text with
    | [] => p.outer.isEmpty
    | c :: r =>
      match step p c r with
      | some (q, rest) => run fuel q rest
      | none => false

def isValid (text : List Char) : Bool := run (text.length + 1) .start text

end AnnotationReport.Log.Pattern
