import AnnotationReport.Text.Digits

/-! # Log entries

An entry has a level and says which part of the program made it. Its line shows the level and the
message, in which the controls that could steer a terminal are written by their numbers.
-/
namespace AnnotationReport.Log

inductive Level where
  | error
  | warn
  | info
  | debug
  | trace
deriving DecidableEq, Repr

namespace Level

def name : Level → String
  | error => "ERROR"
  | warn => "WARN"
  | info => "INFO"
  | debug => "DEBUG"
  | trace => "TRACE"

/-- Entries of a higher rank are of less weight. -/
def rank : Level → Nat
  | error => 1
  | warn => 2
  | info => 3
  | debug => 4
  | trace => 5

end Level

structure Entry where
  level : Level
  target : String
  message : String
deriving DecidableEq, Repr

def escapeChar (c : Char) : List Char :=
  let n := c.toNat
  if n = 0x1B then ['\\', 'x', '1', 'b']
  else if n = 0x07 then ['\\', 'x', '0', '7']
  else if n = 0x08 then ['\\', 'x', '0', '8']
  else if n = 0x0C then ['\\', 'x', '0', 'c']
  else if n = 0x7F then ['\\', 'x', '7', 'f']
  else if 0x80 ≤ n ∧ n < 0xA0 then ['\\', 'u', '\x7b'] ++ Text.hexadecimal n ++ ['\x7d']
  else [c]

def Entry.line (e : Entry) : String :=
  e.level.name ++ " " ++ String.ofList (e.message.toList.flatMap escapeChar)

end AnnotationReport.Log
