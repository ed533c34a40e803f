import AnnotationReport.Text.Digits
import AnnotationReport.Text.Utf8

/-! # Percent-encoding

A part of a URL writes some characters as the bytes of their UTF-8 form, each byte as a percent
sign and two hexadecimal digits. Which characters, depends on the part; all outside ASCII and all
controls are among them. Decoding gives bytes and leaves alone what is no such byte.
-/
namespace AnnotationReport.Url

abbrev EncodeSet := Char → Bool

namespace EncodeSet

def including (set : EncodeSet) (chars : List Char) : EncodeSet :=
  fun c => set c || chars.contains c

def controls : EncodeSet := fun c => c.toNat < 0x20 || 0x7E < c.toNat

def query : EncodeSet := controls.including [' ', '"', '#', '<', '>']

/-- The query of the schemes that all have hosts. -/
def specialQuery : EncodeSet := query.including ['\'']

def fragment : EncodeSet := controls.including [' ', '"', '<', '>', '\x60']

def path : EncodeSet := fragment.including ['#', '?', '\x7b', '\x7d']

def userinfo : EncodeSet :=
  path.including ['/', ':', ';', '=', '@', '[', '\\', ']', '^', '|']

def segment : EncodeSet := path.including ['/', '%']

/-- One segment where a backslash separates segments too. -/
def specialSegment : EncodeSet := segment.including ['\\']

end EncodeSet

def hexDigit (n : Nat) : Char := (Nat.digitChar (n % 16)).toUpper

def encodeByte (b : UInt8) : List Char := ['%', hexDigit (b.toNat / 16), hexDigit b.toNat]

def encodeChar (set : EncodeSet) (c : Char) : List Char :=
  if set c then (Text.Utf8.encodeChar c).flatMap encodeByte else [c]

def encode (set : EncodeSet) (text : List Char) : List Char := text.flatMap (encodeChar set)

def byteOf? (a b : Char) : Option UInt8 :=
  match Text.hexValue? a, Text.hexValue? b with
  | some x, some y => some (UInt8.ofNat (x * 16 + y))
  | _, _ => none

/-- The bytes of a text, with each encoded byte decoded. -/
def decode : List Char → List UInt8
  | [] => []
  | [c] => Text.Utf8.encodeChar c
  | [c, d] => Text.Utf8.encodeChar c ++ Text.Utf8.encodeChar d
  | c :: a :: b :: r =>
    if c = '%' then
      match byteOf? a b with
      | some byte => byte :: decode r
      | none => Text.Utf8.encodeChar c ++ decode (a :: b :: r)
    else Text.Utf8.encodeChar c ++ decode (a :: b :: r)

end AnnotationReport.Url
