import AnnotationReport.Text.Utf8

/-! # Plain text

A text without what would steer a terminal: escape sequences and the controls that are no white
space are left out. A sequence begins with an escape; the characters after it say of what kind it is
and so where it ends. Some sequences carry a text of their own, which is left out with them.
-/
namespace AnnotationReport.Text.Plain

/-- Where in an escape sequence a text is: after the escape, before a last character that is still
owed, in the parameters of a control, in the parameters of a device string, or in a text that a
sequence carries. Only a command is ended by a bell. -/
inductive State where
  | text
  | escape
  | intermediate
  | control
  | device
  | deviceDigits
  | deviceIntermediate
  | carried
  | command
deriving DecidableEq, Repr

def isBlankControl (n : Nat) : Bool := n = 9 || n = 10 || n = 12 || n = 13

def afterEscape (n : Nat) : State :=
  if n < 0x30 then .intermediate
  else if n = 0x5B then .control
  else if n = 0x5D then .command
  else if n = 0x50 then .device
  else if n = 0x58 ∨ n = 0x5E ∨ n = 0x5F then .carried
  else .text

def afterVisible (s : State) (n : Nat) : State :=
  match s with
  | .escape => afterEscape n
  | .intermediate => if n < 0x30 then .intermediate else .text
  | .control => if n < 0x40 then .control else .text
  | .device =>
    if n < 0x30 then .deviceIntermediate
    else if n < 0x40 ∧ n ≠ 0x3A then .deviceDigits
    else .carried
  | .deviceDigits =>
    if n < 0x30 then .deviceIntermediate
    else if n < 0x3C ∧ n ≠ 0x3A then .deviceDigits
    else .carried
  | .deviceIntermediate => if n < 0x30 then .deviceIntermediate else .carried
  | .text | .carried | .command => s

/-- Whether controls count within a sequence: in the kinds that carry a text they are part of it. -/
def minds : State → Bool
  | .text | .escape | .intermediate | .control => true
  | _ => false

/-- The byte that ends a carried text, wherever it stands in a character. -/
def terminator : UInt8 := 0x9C

/-- One character more: whether it is kept, and the state after it. White space ends a sequence
that it has no place in. -/
def step (s : State) (c : Char) : Bool × State :=
  let n := c.toNat
  if n = 0x1B then (false, .escape)
  else if n = 0x18 ∨ n = 0x1A then (false, .text)
  else if n = 0x7F then (false, s)
  else if s = .text then (isBlankControl n || 0x20 ≤ n, .text)
  else if n < 0x20 then
    if minds s && isBlankControl n then (true, .text)
    else (false, if s = .command ∧ n = 7 then .text else s)
  else if n < 0x7F then (false, afterVisible s n)
  else (false, if s = .carried ∧ (Utf8.encodeChar c).contains terminator then .text else s)

def strip : State → List Char → List Char
  | _, [] => []
  | s, c :: r =>
    let (kept, t) := step s c
    if kept then c :: strip t r else strip t r

def ofText (text : String) : String := String.ofList (strip .text text.toList)

end AnnotationReport.Text.Plain
