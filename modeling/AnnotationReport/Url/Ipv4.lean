import AnnotationReport.Text.Digits

/-! # IPv4 addresses

An address is one to four numbers between dots, a last dot being ignored. Each number but the last
is a byte, and the last one fills all bytes that are left. Numbers are decimal, octal after a zero
and hexadecimal after `0x`.
-/
namespace AnnotationReport.Url.Ipv4

def part? : List Char → Option Nat
  | [] => none
  | '0' :: 'x' :: r => Text.number? 16 r
  | '0' :: 'X' :: r => Text.number? 16 r
  | '0' :: c :: r => Text.number? 8 (c :: r)
  | text => Text.number? 10 text

/-- The parts between dots, without the empty one after a last dot. -/
def parts (text : List Char) : List (List Char) :=
  let fields := text.splitOn '.'
  if fields.getLast? = some [] then fields.dropLast else fields

/-- Whether a host name ends in a number and so has to be an address. -/
def isNumeric (text : List Char) : Bool :=
  match (parts text).getLast? with
  | none => false
  | some last => (!last.isEmpty && last.all Char.isDigit) || (part? last).isSome

/-- The address of bytes followed by a number for the bytes that are left. -/
def ofNumbers? (numbers : List Nat) : Option Nat :=
  match numbers.getLast? with
  | none => none
  | some last =>
    let bytes := numbers.dropLast
    if bytes.all (· < 256) ∧ bytes.length < 4 ∧ last < Nat.pow 256 (4 - bytes.length) then
      some (Text.ofDigits 256 bytes * Nat.pow 256 (4 - bytes.length) + last)
    else none

def ofText? (text : List Char) : Option Nat := ((parts text).mapM part?).bind ofNumbers?

def text (address : Nat) : List Char :=
  ['.'].intercalate ([address / 16777216, address / 65536 % 256, address / 256 % 256,
    address % 256].map Text.decimal)

end AnnotationReport.Url.Ipv4
