import Lindenmayer.Decimal.Fixed

/-!
Numerals with a bounded number of significant digits. The exponent is written out where the digits
would not reach the point, or where more than four zeros would stand between.
-/

namespace Lindenmayer.Decimal

-- The core power, whatever else is imported.
attribute [local instance (2000)] instPowNat

def leadingPlace (num den : Nat) : Int :=
  if den ≤ num then ((digits (num / den)).length : Int) - 1
  else
    let k := (digits (den / num)).length
    if den ≤ num * 10 ^ (k - 1) then 1 - (k : Int) else -k

def significant (count num den : Nat) : Nat × Int :=
  let place := leadingPlace num den
  let shift : Int := count - 1 - place
  let n := roundDiv (num * 10 ^ shift.toNat) (den * 10 ^ (-shift).toNat)
  if n = 10 ^ count then (10 ^ (count - 1), place + 1) else (n, place)

def exponentText (e : Int) : List Char :=
  'e' :: (if e < 0 then '-' else '+') ::
    if e.natAbs < 10 then paddedDigits 2 e.natAbs else digits e.natAbs

def withPoint (whole decimals : List Char) : List Char :=
  whole ++ if (trimZeros decimals).isEmpty then [] else '.' :: trimZeros decimals

def generalMagnitude (count num den : Nat) : List Char :=
  if num = 0 then ['0']
  else
    let (n, place) := significant count num den
    let ds := digits n
    if place < -4 ∨ count ≤ place then withPoint (ds.take 1) (ds.drop 1) ++ exponentText place
    else if place < 0 then withPoint ['0'] (List.replicate (place.natAbs - 1) '0' ++ ds)
    else withPoint (ds.take (place.toNat + 1)) (ds.drop (place.toNat + 1))

def general (count : Nat) (x : Float) : List Char :=
  match Binary64.value x with
  | .nan => "nan".toList
  | .infinite negative => infinite negative
  | .finite negative mantissa exponent =>
    let f := Binary64.fraction mantissa exponent
    sign negative ++ generalMagnitude count f.1 f.2

end Lindenmayer.Decimal
