import AnnotationReport.Binary64.Basic

/-! # The shortest decimal of a number

Of the decimals that are nearer to a number than to its neighbours, the shortest ones have the
fewest digits, and of those the one nearest to the number is taken. It reads back as the number.
-/
namespace AnnotationReport.Binary64

structure Decimal where
  digits : Nat
  exponent : Int
deriving DecidableEq, Repr

/-- The reals nearest to a number lie between `low / den` and `high / den`; the number itself is
`value / den`. The ends belong to it when its mantissa is even. -/
structure Neighbourhood where
  low : Nat
  value : Nat
  high : Nat
  den : Nat
  closed : Bool

/-- Half the distance to each neighbour; below a power of two the neighbours are twice as dense. -/
def neighbourhood (x : Binary64) : Neighbourhood :=
  let m := 4 * x.mantissa
  let below := if x.mantissa = block ∧ block < x.place then 1 else 2
  let unit := fun n => (scale n 1 (2 - x.exponent)).1
  ⟨unit (m - below), unit m, unit (m + 2), (scale 1 1 (2 - x.exponent)).2, x.mantissa % 2 = 0⟩

def Neighbourhood.inUnits (a : Neighbourhood) (k : Int) : Neighbourhood :=
  if 0 ≤ k then { a with den := a.den * Nat.pow 10 k.toNat }
  else
    let up := Nat.pow 10 (-k).toNat
    { a with low := a.low * up, value := a.value * up, high := a.high * up }

def Neighbourhood.has (a : Neighbourhood) (q : Nat) : Bool :=
  if a.closed then a.low ≤ q * a.den && q * a.den ≤ a.high
  else a.low < q * a.den && q * a.den < a.high

/-- The whole number of the neighbourhood that is nearest to its value, of two equally near the
even one. Only the two next to the value can be. -/
def Neighbourhood.whole? (a : Neighbourhood) : Option Nat :=
  let q := a.value / a.den
  let r := a.value % a.den
  match a.has q, a.has (q + 1) with
  | true, true =>
    some (if 2 * r < a.den then q else if a.den < 2 * r then q + 1 else q + q % 2)
  | true, false => some q
  | false, true => some (q + 1)
  | false, false => none

def floorLog10 (num den : Nat) : Int :=
  if den ≤ num then ((Nat.toDigits 10 (num / den)).length : Int) - 1
  else -((Nat.toDigits 10 ((den - 1) / num)).length : Int)

def Decimal.trim (fuel : Nat) (d : Decimal) : Decimal :=
  match fuel with
  | 0 => d
  | fuel + 1 =>
    if d.digits ≠ 0 ∧ d.digits % 10 = 0 then trim fuel ⟨d.digits / 10, d.exponent + 1⟩ else d

/-- The shortest decimal of a number's magnitude. Seventeen digits always suffice. -/
def shortest (x : Binary64) : Decimal :=
  let a := x.neighbourhood
  let top := floorLog10 a.value a.den
  let found := (List.range 17).findSome? fun (n : Nat) =>
    let k := top - (n : Int)
    (a.inUnits k).whole?.map fun q => (⟨q, k⟩ : Decimal)
  (found.getD ⟨0, 0⟩).trim 17

end AnnotationReport.Binary64
