/-! # UTF-8

A sequence of bytes is read as a sequence of pieces: characters, and runs of bytes that begin no
character. A run is as long as the bytes could still have begun one, so every byte belongs to
exactly one piece and a reader that replaces each run by one character replaces it once.
-/
namespace AnnotationReport.Text.Utf8

/-- What holds of every number below the first that needs two bytes holds of the characters there. -/
theorem forall_ascii {p : Char → Prop} (h : ∀ n : Fin 128, p (Char.ofNat n)) {c : Char}
    (hc : c.toNat < 0x80) : p c := by
  have hn := h ⟨c.toNat, hc⟩
  rwa [Char.ofNat_toNat] at hn

def encodeChar (c : Char) : List UInt8 :=
  let n := c.toNat
  if n < 0x80 then [UInt8.ofNat n]
  else if n < 0x800 then [UInt8.ofNat (0xC0 + n / 64), UInt8.ofNat (0x80 + n % 64)]
  else if n < 0x10000 then
    [UInt8.ofNat (0xE0 + n / 4096), UInt8.ofNat (0x80 + n / 64 % 64), UInt8.ofNat (0x80 + n % 64)]
  else
    [UInt8.ofNat (0xF0 + n / 262144), UInt8.ofNat (0x80 + n / 4096 % 64),
      UInt8.ofNat (0x80 + n / 64 % 64), UInt8.ofNat (0x80 + n % 64)]

def encode (text : List Char) : List UInt8 := text.flatMap encodeChar

@[simp] theorem encode_append (s t : List Char) : encode (s ++ t) = encode s ++ encode t :=
  List.flatMap_append

inductive Piece where
  | scalar (c : Char)
  | malformed (bytes : List UInt8)
deriving DecidableEq, Repr

/-- A character of which some bytes have been read: those bytes, the bits they carry, how many
bytes are owed, and the range of the next one. -/
structure Begun where
  bytes : List UInt8
  bits : Nat
  owed : Nat
  low : Nat
  high : Nat
deriving DecidableEq, Repr

/-- What a first byte makes: a piece of its own, or a character begun. The narrowed ranges keep
out longer spellings than needed, surrogates, and numbers above the last character. -/
def first (b : UInt8) : Piece ⊕ Begun :=
  let n := b.toNat
  if n < 0x80 then .inl (.scalar (Char.ofNat n))
  else if n < 0xC2 then .inl (.malformed [b])
  else if n < 0xE0 then .inr ⟨[b], n - 0xC0, 1, 0x80, 0xBF⟩
  else if n < 0xF0 then
    .inr ⟨[b], n - 0xE0, 2, if n = 0xE0 then 0xA0 else 0x80, if n = 0xED then 0x9F else 0xBF⟩
  else if n < 0xF5 then
    .inr ⟨[b], n - 0xF0, 3, if n = 0xF0 then 0x90 else 0x80, if n = 0xF4 then 0x8F else 0xBF⟩
  else .inl (.malformed [b])

def Begun.next? (s : Begun) (b : UInt8) : Option (Piece ⊕ Begun) :=
  if s.low ≤ b.toNat ∧ b.toNat ≤ s.high then
    let bits := s.bits * 64 + (b.toNat - 0x80)
    if s.owed ≤ 1 then some (.inl (.scalar (Char.ofNat bits)))
    else some (.inr ⟨s.bytes ++ [b], bits, s.owed - 1, 0x80, 0xBF⟩)
  else none

/-- One byte more: the pieces it completes, and the character it leaves begun. A byte that does
not continue the character begun ends it as malformed and is read afresh. -/
def step : Option Begun → UInt8 → List Piece × Option Begun
  | none, b => match first b with
    | .inl p => ([p], none)
    | .inr s => ([], some s)
  | some s, b => match s.next? b with
    | some (.inl p) => ([p], none)
    | some (.inr t) => ([], some t)
    | none => match first b with
      | .inl p => ([.malformed s.bytes, p], none)
      | .inr t => ([.malformed s.bytes], some t)

def piecesFrom : Option Begun → List UInt8 → List Piece
  | none, [] => []
  | some s, [] => [.malformed s.bytes]
  | s, b :: r => (step s b).1 ++ piecesFrom (step s b).2 r

def pieces (bytes : List UInt8) : List Piece := piecesFrom none bytes

def Piece.char : Piece → Char
  | .scalar c => c
  | .malformed _ => '\uFFFD'

def Piece.scalar? : Piece → Option Char
  | .scalar c => some c
  | .malformed _ => none

/-- The text of the bytes, with one replacement character for each malformed run. -/
def decode (bytes : List UInt8) : List Char := (pieces bytes).map Piece.char

/-- The text of the bytes if they are well formed throughout. -/
def decode? (bytes : List UInt8) : Option (List Char) := (pieces bytes).mapM Piece.scalar?

end AnnotationReport.Text.Utf8
