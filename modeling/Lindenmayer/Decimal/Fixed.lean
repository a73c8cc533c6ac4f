import Lindenmayer.Binary64.Value
import Lindenmayer.Decimal.Rounding

/-!
Numerals with a bounded number of decimals: the nearest such decimal, without zeros behind the
last digit that counts and without a sign on zero. The bound is itself bounded.
-/

namespace Lindenmayer.Decimal

-- The core power, whatever else is imported.
attribute [local instance (2000)] instPowNat

def digits (n : Nat) : List Char := Nat.toDigits 10 n

def paddedDigits : Nat → Nat → List Char
  | 0, _ => []
  | places + 1, n => paddedDigits places (n / 10) ++ [Nat.digitChar (n % 10)]

def trimZeros (ds : List Char) : List Char := (ds.reverse.dropWhile (· == '0')).reverse

def sign (negative : Bool) : List Char := if negative then ['-'] else []

def numeral (negative : Bool) (places n : Nat) : List Char :=
  let decimals := trimZeros (paddedDigits places (n % 10 ^ places))
  sign (negative && n != 0) ++ digits (n / 10 ^ places) ++
    if decimals.isEmpty then [] else '.' :: decimals

def scaled (places mantissa : Nat) (exponent : Int) : Nat :=
  let f := Binary64.fraction mantissa exponent
  roundDiv (f.1 * 10 ^ places) f.2

def infinite (negative : Bool) : List Char := sign negative ++ "inf".toList

/-- How many places are worth looking at: below the unit, a power of two, there are only zeros. -/
def usedPlaces (places : Nat) (exponent : Int) : Nat := min places (-exponent).toNat

def fixed (places : Nat) (x : Float) : List Char :=
  match Binary64.value x with
  | .nan => "nan".toList
  | .infinite negative => infinite negative
  | .finite negative mantissa exponent =>
    let used := usedPlaces places exponent
    numeral negative used (scaled used mantissa exponent)

inductive PlacesError
  | negative
  | tooManyDigits
  | tooBig
  deriving DecidableEq

def PlacesError.message : PlacesError → String
  | .negative => "Format specifier missing precision"
  | .tooManyDigits => "Too many decimal digits in format string"
  | .tooBig => "precision too big"

def placesOf : Int → Except PlacesError Nat
  | .negSucc _ => .error .negative
  | .ofNat n =>
    if 2 ^ (63 : Nat) ≤ n then .error .tooManyDigits
    else if 2 ^ (31 : Nat) ≤ n then .error .tooBig
    else .ok n

def fixed? (places : Int) (x : Float) : Except PlacesError (List Char) :=
  (placesOf places).map (fixed · x)

end Lindenmayer.Decimal
