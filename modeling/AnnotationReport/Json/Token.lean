import AnnotationReport.Text.Digits
import AnnotationReport.Text.Utf8

/-! # JSON tokens

The bytes of a JSON text fall into marks, words, numerals and strings, with white space between
them. A string is kept as it is written, in parts: a surrogate without its partner or a malformed
run of bytes makes it no text, and it depends on the string's place whether that matters.
-/
namespace AnnotationReport.Json

/-- A numeral as written: its digits before and after the point and the power of ten it names. -/
structure Numeral where
  negative : Bool
  whole : List Nat
  fraction : List Nat
  exponent : Option Int
deriving DecidableEq, Repr

inductive StringPart where
  | char (c : Char)
  | unit (u : Nat)
  | malformed
deriving DecidableEq, Repr

inductive Token where
  | arrayStart
  | arrayEnd
  | objectStart
  | objectEnd
  | colon
  | comma
  | null
  | bool (b : Bool)
  | number (n : Numeral)
  | string (parts : List StringPart)
deriving DecidableEq, Repr

def isHighSurrogate (u : Nat) : Bool := 0xD800 ≤ u && u < 0xDC00
def isLowSurrogate (u : Nat) : Bool := 0xDC00 ≤ u && u < 0xE000

/-- The text of a string, if every surrogate in it is one half of a pair and all bytes are well
formed. -/
def textOf? : List StringPart → Option (List Char)
  | [] => some []
  | .char c :: r => (textOf? r).map (c :: ·)
  | .malformed :: _ => none
  | .unit u :: .unit v :: r =>
    if isHighSurrogate u then
      if isLowSurrogate v then
        (textOf? r).map (Char.ofNat (0x10000 + (u - 0xD800) * 0x400 + (v - 0xDC00)) :: ·)
      else none
    else if isLowSurrogate u then none
    else (textOf? (.unit v :: r)).map (Char.ofNat u :: ·)
  | .unit u :: r =>
    if isHighSurrogate u || isLowSurrogate u then none
    else (textOf? r).map (Char.ofNat u :: ·)

namespace Numeral

def digit (c : Char) : Nat := c.toNat - '0'.toNat

def digits (text : List Char) : List Nat := (text.takeWhile Char.isDigit).map digit

/-- What follows the whole part: a point with digits, or nothing. -/
def fraction? : List Char → Option (List Nat × List Char)
  | '.' :: r => if digits r = [] then none else some (digits r, r.dropWhile Char.isDigit)
  | r => some ([], r)

def unsignedExponent? (r : List Char) : Option Nat :=
  if digits r = [] ∨ r.dropWhile Char.isDigit ≠ [] then none
  else some (Text.ofDigits 10 (digits r))

/-- What follows the fraction: the letter e with a whole number, or nothing. -/
def exponent? : List Char → Option (Option Int)
  | [] => some none
  | e :: r =>
    if e ≠ 'e' ∧ e ≠ 'E' then none else
      match r with
      | '-' :: r => (unsignedExponent? r).map fun n => some (-(n : Int))
      | '+' :: r => (unsignedExponent? r).map fun n => some (n : Int)
      | r => (unsignedExponent? r).map fun n => some (n : Int)

/-- A whole part has a digit, and no zero before another digit. -/
def isWhole : List Nat → Bool
  | [] => false
  | 0 :: r => r.isEmpty
  | _ => true

def unsigned? (negative : Bool) (text : List Char) : Option Numeral :=
  if isWhole (digits text) then
    (fraction? (text.dropWhile Char.isDigit)).bind fun (fraction, r) =>
      (exponent? r).map fun exponent => ⟨negative, digits text, fraction, exponent⟩
  else none

def ofChars? : List Char → Option Numeral
  | '-' :: r => unsigned? true r
  | r => unsigned? false r

end Numeral

def wordToken? (word : List Char) : Option Token :=
  if word = "null".toList then some .null
  else if word = "true".toList then some (.bool true)
  else if word = "false".toList then some (.bool false)
  else none

/-- Where reading stands: between tokens, or inside one of which the latest parts come first. -/
inductive Lexer where
  | idle
  | word (letters : List Char)
  | numeral (chars : List Char)
  | string (parts : List StringPart)
  | escape (parts : List StringPart)
  | hex (parts : List StringPart) (count unit : Nat)
deriving DecidableEq, Repr

namespace Lexer

def isSpace (c : Char) : Bool := c = ' ' || c = '\n' || c = '\t' || c = '\r'

def isNumeric (c : Char) : Bool :=
  c.isDigit || c = '-' || c = '+' || c = '.' || c = 'e' || c = 'E'

def mark? (c : Char) : Option Token :=
  if c = '[' then some .arrayStart
  else if c = ']' then some .arrayEnd
  else if c = '\x7b' then some .objectStart
  else if c = '\x7d' then some .objectEnd
  else if c = ':' then some .colon
  else if c = ',' then some .comma
  else none

def start (c : Char) : Option (List Token × Lexer) :=
  match mark? c with
  | some t => some ([t], idle)
  | none =>
    if isSpace c then some ([], idle)
    else if c = '"' then some ([], string [])
    else if c = '-' || c.isDigit then some ([], numeral [c])
    else if c.isAlpha then some ([], word [c])
    else none

/-- The character that a letter after a backslash stands for. -/
def escaped? (c : Char) : Option Char :=
  if c = '"' || c = '\\' || c = '/' then some c
  else if c = 'b' then some '\x08'
  else if c = 'f' then some '\x0c'
  else if c = 'n' then some '\n'
  else if c = 'r' then some '\r'
  else if c = 't' then some '\t'
  else none

/-- A token that the next character ends, and that character. -/
def close (token : Option Token) (c : Char) : Option (List Token × Lexer) :=
  token.bind fun t => (start c).map fun (ts, s) => (t :: ts, s)

def step : Lexer → Char → Option (List Token × Lexer)
  | idle, c => start c
  | word ls, c => if c.isAlpha then some ([], word (c :: ls)) else close (wordToken? ls.reverse) c
  | numeral cs, c =>
    if isNumeric c then some ([], numeral (c :: cs))
    else close ((Numeral.ofChars? cs.reverse).map .number) c
  | string ps, c =>
    if c = '"' then some ([.string ps.reverse], idle)
    else if c = '\\' then some ([], escape ps)
    else if c.toNat < 0x20 then none
    else some ([], string (.char c :: ps))
  | escape ps, c =>
    if c = 'u' then some ([], hex ps 0 0)
    else (escaped? c).map fun d => ([], string (.char d :: ps))
  | hex ps count u, c =>
    (Text.hexValue? c).map fun d =>
      ([], if count = 3 then string (.unit (u * 16 + d) :: ps) else hex ps (count + 1) (u * 16 + d))

/-- A malformed run of bytes has a place inside strings only. -/
def stepPiece (s : Lexer) : Text.Utf8.Piece → Option (List Token × Lexer)
  | .scalar c => step s c
  | .malformed _ => match s with
    | string ps => some ([], string (.malformed :: ps))
    | _ => none

def finish : Lexer → Option (List Token)
  | idle => some []
  | word ls => (wordToken? ls.reverse).map ([·])
  | numeral cs => (Numeral.ofChars? cs.reverse).map ([.number ·])
  | _ => none

def run (s : Lexer) : List Text.Utf8.Piece → Option (List Token)
  | [] => s.finish
  | p :: r => (s.stepPiece p).bind fun (ts, t) => (run t r).map (ts ++ ·)

end Lexer

def tokens? (bytes : List UInt8) : Option (List Token) := Lexer.idle.run (Text.Utf8.pieces bytes)

end AnnotationReport.Json
