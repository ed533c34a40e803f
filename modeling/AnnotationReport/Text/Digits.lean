/-! # Digits

The value of a digit, the number that a list of digits writes, and the digits of a number.
-/
namespace AnnotationReport.Text

def hexValue? (c : Char) : Option Nat :=
  if c.isDigit then some (c.toNat - '0'.toNat)
  else if 'a' ≤ c ∧ c ≤ 'f' then some (c.toNat - 'a'.toNat + 10)
  else if 'A' ≤ c ∧ c ≤ 'F' then some (c.toNat - 'A'.toNat + 10)
  else none

def digitValue? (base : Nat) (c : Char) : Option Nat :=
  (hexValue? c).filter (· < base)

/-- The number that digits of the given values write. -/
def ofDigits (base : Nat) (digits : List Nat) : Nat := digits.foldl (fun n d => n * base + d) 0

/-- The number that a text of digits writes; zero for no digits. -/
def number? (base : Nat) (text : List Char) : Option Nat :=
  (text.mapM (digitValue? base)).map (ofDigits base)

def decimal (n : Nat) : List Char := Nat.toDigits 10 n

def hexadecimal (n : Nat) : List Char := Nat.toDigits 16 n

end AnnotationReport.Text
