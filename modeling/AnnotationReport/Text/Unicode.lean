import AnnotationReport.Text.Utf8

/-! # Unicode in bytes

Bytes are read as UTF-8, unless they begin with the byte order mark of another encoding of Unicode. A mark
is no part of the text. Bytes that make no character are read as the replacement character, so every
sequence of bytes has a text.
-/
namespace AnnotationReport.Text.Unicode

/-- The text of 16-bit units. A surrogate that has no partner is replaced, as is a byte left over
(`odd`), which together with an open first half counts once. -/
def ofUnits (odd : Bool) : Option Nat → List Nat → List Char
  | none, [] => if odd then ['\uFFFD'] else []
  | some _, [] => ['\uFFFD']
  | none, u :: r =>
    if 0xD800 ≤ u ∧ u < 0xDC00 then ofUnits odd (some u) r
    else if 0xDC00 ≤ u ∧ u < 0xE000 then '\uFFFD' :: ofUnits odd none r
    else Char.ofNat u :: ofUnits odd none r
  | some h, u :: r =>
    if 0xDC00 ≤ u ∧ u < 0xE000 then
      Char.ofNat (0x10000 + (h - 0xD800) * 0x400 + (u - 0xDC00)) :: ofUnits odd none r
    else if 0xD800 ≤ u ∧ u < 0xDC00 then '\uFFFD' :: ofUnits odd (some u) r
    else '\uFFFD' :: Char.ofNat u :: ofUnits odd none r

def units (join : UInt8 → UInt8 → Nat) : List UInt8 → List Nat
  | a :: b :: r => join a b :: units join r
  | _ => []

def decodeUtf16 (join : UInt8 → UInt8 → Nat) (bytes : List UInt8) : List Char :=
  ofUnits (bytes.length % 2 = 1) none (units join bytes)

def decode : List UInt8 → List Char
  | 0xEF :: 0xBB :: 0xBF :: r => Utf8.decode r
  | 0xFF :: 0xFE :: r => decodeUtf16 (fun a b => b.toNat * 256 + a.toNat) r
  | 0xFE :: 0xFF :: r => decodeUtf16 (fun a b => a.toNat * 256 + b.toNat) r
  | bytes => Utf8.decode bytes

end AnnotationReport.Text.Unicode
