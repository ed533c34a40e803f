/-! # Binary floating point numbers of 64 bits

A finite number is its sign and the place of its magnitude in the increasing order of all finite
magnitudes, zero having place 0. Places below 2^52 are multiples of 2^-1074; from there on each
block of 2^52 places spans one power of two. Arithmetic is exact arithmetic on ratios followed by
one rounding to the nearest place, to an even place when two are equally near.
-/
namespace AnnotationReport

def Binary64.block : Nat := Nat.pow 2 52

/-- The number of places that are finite. -/
def Binary64.places : Nat := 2047 * Binary64.block

structure Binary64 where
  negative : Bool
  place : Nat
  place_lt : place < Binary64.places
deriving DecidableEq

namespace Binary64

theorem places_pos : 0 < places := by decide

def zero (negative : Bool) : Binary64 := ⟨negative, 0, places_pos⟩

instance : Inhabited Binary64 := ⟨zero false⟩

/-- The magnitude is `mantissa * 2 ^ exponent`. -/
def mantissa (x : Binary64) : Nat :=
  if x.place < block then x.place else block + x.place % block

def exponent (x : Binary64) : Int :=
  if x.place < block then -1074 else (x.place / block : Int) - 1075

def isZero (x : Binary64) : Bool := x.place = 0

/-- `num / den` to the nearest natural number, a half to the even one. -/
def roundDiv (num den : Nat) : Nat :=
  let q := num / den
  let r := num % den
  if 2 * r < den then q else if den < 2 * r then q + 1 else q + q % 2

def scale (num den : Nat) (e : Int) : Nat × Nat :=
  if 0 ≤ e then (num, den * Nat.pow 2 e.toNat) else (num * Nat.pow 2 (-e).toNat, den)

/-- The exponent of the power of two at or below a positive ratio. -/
def floorLog2 (num den : Nat) : Int :=
  let guess := (num.log2 : Int) - (den.log2 : Int)
  let (n, d) := scale num den guess
  if d ≤ n then guess else guess - 1

/-- The place nearest to a ratio; it may lie beyond the finite ones. -/
def nearestPlace (num den : Nat) : Nat :=
  if num = 0 then 0 else
    let e := max (-1074) (floorLog2 num den - 52)
    let (n, d) := scale num den e
    (e + 1074).toNat * block + roundDiv n d

/-- The number nearest to a ratio, unless that is beyond the largest finite number. -/
def ofRatio? (negative : Bool) (num den : Nat) : Option Binary64 :=
  let place := nearestPlace num den
  if h : place < places then some ⟨negative, place, h⟩ else none

def mul? (x y : Binary64) : Option Binary64 :=
  let (n, d) := scale (x.mantissa * y.mantissa) 1 (-(x.exponent + y.exponent))
  ofRatio? (x.negative != y.negative) n d

def div? (x y : Binary64) : Option Binary64 :=
  let (n, d) := scale x.mantissa y.mantissa (y.exponent - x.exponent)
  ofRatio? (x.negative != y.negative) n d

def withSign (x : Binary64) (negative : Bool) : Binary64 := { x with negative := negative }

end Binary64
end AnnotationReport
