import AnnotationReport.Text.Digits

/-! # IPv6 addresses

An address is eight pieces of 16 bits between colons. Two colons together stand, once, for one or
more zero pieces, and the last two pieces may be written as four decimal bytes. An address is
written with its longest run of two or more zero pieces left out, the first of several.
-/
namespace AnnotationReport.Url.Ipv6

def piece? (text : List Char) : Option Nat :=
  if text.isEmpty ∨ 4 < text.length then none else Text.number? 16 text

def byte? (text : List Char) : Option Nat :=
  if text.isEmpty ∨ (text.head? = some '0' ∧ 1 < text.length) then none
  else (Text.number? 10 text).filter (· < 256)

/-- The two pieces that four decimal bytes make. -/
def dotted? (text : List Char) : Option (List Nat) :=
  match (text.splitOn '.').mapM byte? with
  | some [a, b, c, d] => some [a * 256 + b, c * 256 + d]
  | _ => none

/-- Pieces of which the last two may be bytes. -/
def pieces? : List (List Char) → Option (List Nat)
  | [] => some []
  | [last] => if last.contains '.' then dotted? last else (piece? last).map ([·])
  | field :: r => (piece? field).bind fun p => (pieces? r).map (p :: ·)

/-- The text before and after the first two colons that stand together. -/
def cut? : List Char → Option (List Char × List Char)
  | [] => none
  | [_] => none
  | a :: b :: r =>
    if a = ':' ∧ b = ':' then some ([], r)
    else (cut? (b :: r)).map fun (before, after) => (a :: before, after)

def fields (text : List Char) : List (List Char) :=
  if text.isEmpty then [] else text.splitOn ':'

def ofText? (text : List Char) : Option (List Nat) :=
  match cut? text with
  | none => (pieces? (fields text)).filter (·.length = 8)
  | some (before, after) =>
    ((fields before).mapM piece?).bind fun left => (pieces? (fields after)).bind fun right =>
      if left.length + right.length < 8 then
        some (left ++ List.replicate (8 - left.length - right.length) 0 ++ right)
      else none

/-- The lengths of the runs of zeros that start at each piece. -/
def zeroRuns : List Nat → List Nat
  | [] => []
  | p :: r => (if p = 0 then (zeroRuns r).headD 0 + 1 else 0) :: zeroRuns r

def colons (pieces : List Nat) : List Char := [':'].intercalate (pieces.map Text.hexadecimal)

def text (pieces : List Nat) : List Char :=
  let runs := zeroRuns pieces
  let longest := runs.foldl max 0
  if longest < 2 then colons pieces
  else
    let start := runs.idxOf longest
    colons (pieces.take start) ++ [':', ':'] ++ colons (pieces.drop (start + longest))

end AnnotationReport.Url.Ipv6
