import AnnotationReport.Text.Digits
import AnnotationReport.Text.Shown

/-! # Quoted text

A text in double quotes, for people to read: quotes and backslashes are marked by a backslash, line
feeds and the like have letters, and any other character that does not show is written by its
number.
-/
namespace AnnotationReport.Text.Quoted

def escapeChar (c : Char) : List Char :=
  if c = '"' then ['\\', '"']
  else if c = '\\' then ['\\', '\\']
  else if c = '\n' then ['\\', 'n']
  else if c = '\r' then ['\\', 'r']
  else if c = '\t' then ['\\', 't']
  else if c = Char.ofNat 0 then ['\\', '0']
  else if Shown.shows c then [c]
  else ['\\', 'u', '\x7b'] ++ hexadecimal c.toNat ++ ['\x7d']

def quote (text : String) : String :=
  String.ofList ('"' :: text.toList.flatMap escapeChar ++ ['"'])

end AnnotationReport.Text.Quoted
