/-!
The value of a double. A finite one is a whole number of units, and the unit is a power of two.
-/

namespace Lindenmayer.Binary64

-- The core power, whatever else is imported.
attribute [local instance (2000)] instPowNat

inductive Value
  | nan
  | infinite (negative : Bool)
  | finite (negative : Bool) (mantissa : Nat) (exponent : Int)
  deriving DecidableEq

def value (x : Float) : Value :=
  let bits := x.toBits.toNat
  let negative := 2 ^ (63 : Nat) ≤ bits
  let field : Nat := bits / 2 ^ (52 : Nat) % 2 ^ (11 : Nat)
  let fraction := bits % 2 ^ (52 : Nat)
  if field = 2047 then if fraction = 0 then .infinite negative else .nan
  else if field = 0 then .finite negative fraction (-1074)
  else .finite negative (fraction + 2 ^ (52 : Nat)) ((field : Int) - 1075)

def fraction (mantissa : Nat) (exponent : Int) : Nat × Nat :=
  (mantissa * 2 ^ exponent.toNat, 2 ^ (-exponent).toNat)

theorem fraction_den_pos (mantissa : Nat) (exponent : Int) : 0 < (fraction mantissa exponent).2 :=
  Nat.two_pow_pos _

end Lindenmayer.Binary64
