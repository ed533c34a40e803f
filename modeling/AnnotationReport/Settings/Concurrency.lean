/-! # Concurrency

How many annotation requests may be under way at once: a number of 64 bits that is not zero. It is
written in decimal digits, which a plus sign may precede.
-/
namespace AnnotationReport

structure Concurrency where
  limit : Nat
  pos : 0 < limit
  lt : limit < UInt64.size
deriving DecidableEq

namespace Concurrency

inductive Error where
  | empty
  | digit
  | tooLarge
  | zero
deriving DecidableEq, Repr

def Error.message : Error → String
  | empty => "cannot parse integer from empty string"
  | digit => "invalid digit found in string"
  | tooLarge => "number too large to fit in target type"
  | zero => "number would be zero for non-zero type"

def one : Concurrency := ⟨1, by decide, by decide⟩

def ofNat (n : Nat) : Except Error Concurrency :=
  if pos : 0 < n then
    if lt : n < UInt64.size then .ok ⟨n, pos, lt⟩ else .error .tooLarge
  else .error .zero

theorem ofNat_limit (c : Concurrency) : ofNat c.limit = .ok c := by
  rw [ofNat, dif_pos c.pos, dif_pos c.lt]

/-- Continues a number with digits, up to the first character at which it goes wrong. -/
def readDigits (n : Nat) : List Char → Except Error Nat
  | [] => .ok n
  | c :: r =>
    if c.isDigit then
      let m := n * 10 + (c.toNat - '0'.toNat)
      if m < UInt64.size then readDigits m r else .error .tooLarge
    else .error .digit

def readNumber : List Char → Except Error Nat
  | [] => .error .empty
  | ['+'] => .error .digit
  | '+' :: r => readDigits 0 r
  | text => readDigits 0 text

def ofText (text : String) : Except Error Concurrency := (readNumber text.toList).bind ofNat

end Concurrency
end AnnotationReport
