import AnnotationReport.Binary64.Basic
import AnnotationReport.Json.Document

/-! # JSON values

A value is what a document means: integers of 64 bits and floating point numbers, strings as text,
objects with each key once. A repeated key keeps its first place and takes its last value. A
document has no value when a number in it is too large, a string is no text, or it nests deeper
than allowed.
-/
namespace AnnotationReport

inductive Json where
  | null
  | bool (b : Bool)
  | integer (n : Int)
  | float (x : Binary64)
  | string (s : String)
  | array (items : List Json)
  | object (members : List (String × Json))

namespace Json

namespace Numeral

/-- The digits that would take the number to 2^64 or above are left over. -/
def absorb : Nat → List Nat → Nat × List Nat
  | n, [] => (n, [])
  | n, d :: r => if n * 10 + d < UInt64.size then absorb (n * 10 + d) r else (n, d :: r)

/-- The significand and the power of ten of a numeral. Digits left over before the point raise the
power, digits taken after it lower it. -/
def parts (n : Numeral) : Nat × Int :=
  let (whole, dropped) := absorb 0 n.whole
  let (all, unread) := absorb whole n.fraction
  (all, (dropped.length : Int) - ((n.fraction.length : Int) - unread.length) + n.exponent.getD 0)

def power (k : Nat) : Option Binary64 := Binary64.ofRatio? false (Nat.pow 10 k) 1

/-- The significand is rounded, then multiplied or divided by a power of ten and rounded again;
below 10^-308 the division takes two steps. -/
def toBinary64? (n : Numeral) : Option Binary64 :=
  let (significand, e) := n.parts
  let magnitude : Option Binary64 :=
    if significand = 0 then some (.zero false)
    else (Binary64.ofRatio? false significand 1).bind fun x =>
      if 308 < e then none
      else if 0 ≤ e then (power e.toNat).bind x.mul?
      else if -308 ≤ e then (power (-e).toNat).bind x.div?
      else if -616 ≤ e then
        ((power 308).bind x.div?).bind fun y => (power (-e - 308).toNat).bind y.div?
      else some (.zero false)
  magnitude.map (·.withSign n.negative)

/-- The integer that a numeral without fraction and exponent writes. Minus zero is none. -/
def integer? (n : Numeral) : Option Int :=
  let magnitude := Text.ofDigits 10 n.whole
  if n.fraction ≠ [] ∨ n.exponent ≠ none then none
  else if n.negative then
    if 0 < magnitude ∧ magnitude ≤ Nat.pow 2 63 then some (-(magnitude : Int)) else none
  else if magnitude < UInt64.size then some magnitude else none

def value? (n : Numeral) : Option Json :=
  match n.integer? with
  | some i => some (.integer i)
  | none => n.toBinary64?.map .float

end Numeral

def stringOf? (parts : List StringPart) : Option String := (textOf? parts).map String.ofList

/-- Gives a key its value: in its place if it has one, else at the end. -/
def put {α : Type} (key : String) (value : α) : List (String × α) → List (String × α)
  | [] => [(key, value)]
  | (k, v) :: r => if k = key then (key, value) :: r else (k, v) :: put key value r

def lastValues {α : Type} (members : List (String × α)) : List (String × α) :=
  members.foldl (fun done (key, value) => put key value done) []

mutual

def ofDocument? (depth : Nat) : Document → Option Json
  | .null => some .null
  | .bool b => some (.bool b)
  | .number n => n.value?
  | .string ps => (stringOf? ps).map .string
  | .array items => if depth = 0 then none else (itemsOf? (depth - 1) items).map .array
  | .object members =>
    if depth = 0 then none
    else (membersOf? (depth - 1) members).map fun ms => .object (lastValues ms)

def itemsOf? (depth : Nat) : List Document → Option (List Json)
  | [] => some []
  | d :: r => (ofDocument? depth d).bind fun v => (itemsOf? depth r).map (v :: ·)

def membersOf? (depth : Nat) : List (Key × Document) → Option (List (String × Json))
  | [] => some []
  | m :: r => (memberOf? depth m).bind fun v => (membersOf? depth r).map (v :: ·)

def memberOf? (depth : Nat) : Key × Document → Option (String × Json)
  | (k, d) => (stringOf? k).bind fun key => (ofDocument? depth d).map fun v => (key, v)

end

def maxDepth : Nat := 127

end Json
end AnnotationReport
