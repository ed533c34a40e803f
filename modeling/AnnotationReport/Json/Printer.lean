import AnnotationReport.Binary64.Shortest
import AnnotationReport.Json.Value

/-! # Compact JSON text

A value is written without white space. Strings escape quotes, backslashes and control characters
below the space and nothing else. Floating point numbers are written in their shortest decimal,
with a point or an exponent, so that none reads back as an integer.
-/
namespace AnnotationReport.Json

def hexDigit (n : Nat) : Char := Nat.digitChar (n % 16)

def escapeChar (c : Char) : List Char :=
  if c = '"' then ['\\', '"']
  else if c = '\\' then ['\\', '\\']
  else if c = '\x08' then ['\\', 'b']
  else if c = '\x0c' then ['\\', 'f']
  else if c = '\n' then ['\\', 'n']
  else if c = '\r' then ['\\', 'r']
  else if c = '\t' then ['\\', 't']
  else if c.toNat < 0x20 then ['\\', 'u', '0', '0', hexDigit (c.toNat / 16), hexDigit c.toNat]
  else [c]

def quote (s : String) : List Char := '"' :: s.toList.flatMap escapeChar ++ ['"']

/-- Decimals from 10^-5 up to 10^16 are written without an exponent. -/
def positionalFrom : Int := -5
def positionalUpTo : Int := 16

def integerText (n : Int) : List Char :=
  if n < 0 then '-' :: Text.decimal n.natAbs else Text.decimal n.natAbs

def decimalText (d : Binary64.Decimal) : List Char :=
  let ds := Text.decimal d.digits
  let top := d.exponent + ds.length - 1
  if positionalFrom ≤ top ∧ top < positionalUpTo then
    if 0 ≤ d.exponent then ds ++ List.replicate d.exponent.toNat '0' ++ ['.', '0']
    else if 0 ≤ top then ds.take (top.toNat + 1) ++ '.' :: ds.drop (top.toNat + 1)
    else '0' :: '.' :: List.replicate (-top - 1).toNat '0' ++ ds
  else
    let mantissa := match ds with
      | [] => []
      | [c] => [c]
      | c :: r => c :: '.' :: r
    mantissa ++ 'e' :: (if top < 0 then '-' else '+') :: Text.decimal top.natAbs

def floatText (x : Binary64) : List Char :=
  let magnitude := if x.isZero then ['0', '.', '0'] else decimalText x.shortest
  if x.negative then '-' :: magnitude else magnitude

mutual

def render : Json → List Char
  | .null => ['n', 'u', 'l', 'l']
  | .bool true => ['t', 'r', 'u', 'e']
  | .bool false => ['f', 'a', 'l', 's', 'e']
  | .integer n => integerText n
  | .float x => floatText x
  | .string s => quote s
  | .array items => '[' :: renderItems items ++ [']']
  | .object members => '\x7b' :: renderMembers members ++ ['\x7d']

def renderItems : List Json → List Char
  | [] => []
  | [v] => render v
  | v :: w :: r => render v ++ ',' :: renderItems (w :: r)

def renderMembers : List (String × Json) → List Char
  | [] => []
  | [m] => renderMember m
  | m :: n :: r => renderMember m ++ ',' :: renderMembers (n :: r)

def renderMember : String × Json → List Char
  | (k, v) => quote k ++ ':' :: render v

end

end AnnotationReport.Json
