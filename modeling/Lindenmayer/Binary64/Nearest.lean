import Lindenmayer.Decimal.Rounding

/-!
The double nearest to a fraction, to the even one from halfway between two, and to infinity from
beyond the largest.
-/

namespace Lindenmayer.Binary64

-- The core power, whatever else is imported.
attribute [local instance (2000)] instPowNat

def infinityBits : Nat := 2047 * 2 ^ (52 : Nat)

def ofMagnitudeBits (negative : Bool) (bits : Nat) : Float :=
  .ofBits (.ofNat (bits + if negative then 2 ^ (63 : Nat) else 0))

def infinity (negative : Bool) : Float := ofMagnitudeBits negative infinityBits

def leadingExponent (num den : Nat) : Int :=
  let e : Int := num.log2 - den.log2
  if num * 2 ^ (-e).toNat < den * 2 ^ e.toNat then e - 1 else e

/-- The exponent of the unit at a positive fraction: fifty-three digits, but none below `2 ^ -1074`. -/
def unitExponent (num den : Nat) : Int := max (leadingExponent num den - 52) (-1074)

def magnitudeBits (num den : Nat) : Nat :=
  if num = 0 then 0
  else
    let e := unitExponent num den
    let n := Decimal.roundDiv (num * 2 ^ (-e).toNat) (den * 2 ^ e.toNat)
    min ((e + 1074).toNat * 2 ^ (52 : Nat) + n) infinityBits

def ofFraction (negative : Bool) (num den : Nat) : Float :=
  ofMagnitudeBits negative (magnitudeBits num den)

def ofInt (n : Int) : Float := ofFraction (n < 0) n.natAbs 1

def ofInt? (n : Int) : Option Float :=
  if magnitudeBits n.natAbs 1 = infinityBits then none else some (ofInt n)

/-- Reads a digit string times a power of ten. Beyond the bounds every result is infinite or zero,
so that no power need be computed there. -/
def ofDecimal (negative : Bool) (digits : Nat) (exponent : Int) : Float :=
  if digits = 0 then ofMagnitudeBits negative 0
  else
    let top := (Nat.toDigits 10 digits).length + exponent
    if 310 < top then infinity negative
    else if top < -330 then ofMagnitudeBits negative 0
    else ofFraction negative (digits * 10 ^ exponent.toNat) (10 ^ (-exponent).toNat)

end Lindenmayer.Binary64
