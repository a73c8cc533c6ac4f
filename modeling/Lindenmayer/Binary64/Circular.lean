import Lindenmayer.Binary64.Nearest
import Lindenmayer.Binary64.Value

/-!
Cosine and sine of a double, rounded to nearest. The heading is reduced by an exact multiple of a
quarter turn with so many digits of `π` that no double loses more than 64 of the 192 binary places
kept, and the two series are summed in whole numbers of the last place.
-/

namespace Lindenmayer.Binary64

-- The core power, whatever else is imported.
attribute [local instance (2000)] instPowNat

/-- The alternating series of the arc tangent of `1 / k`, in units of the last place: `power` is the
next odd power of `1 / k`, and `n` its divisor. -/
def arctanSeries (k : Nat) : Nat → Nat → Nat → Nat
  | 0, _, _ => 0
  | terms + 1, n, power => power / n - arctanSeries k terms (n + 2) (power / (k * k))

def arctanInv (k places : Nat) : Nat := arctanSeries k (places / 4 + 1) 1 (2 ^ places / k)

def turnPlaces : Nat := 1280

/-- A quarter turn in units of `2 ^ -1280`, by the formula `π / 4 = 4 arctan 1/5 - arctan 1/239`. -/
def quarterTurn : Nat :=
  2 * (4 * arctanInv 5 (turnPlaces + 32) - arctanInv 239 (turnPlaces + 32)) / 2 ^ (32 : Nat)

def places : Nat := 192

def circularSeries (r : Nat) : Nat → Nat → Nat → Nat × Nat
  | 0, _, _ => (0, 0)
  | terms + 1, n, term =>
    let rest := circularSeries r terms (n + 1) (term * r / 2 ^ places / n)
    (term - rest.2, rest.1)

def reduce (mantissa : Nat) (exponent : Int) : Nat × Int :=
  let x := mantissa * 2 ^ (exponent + turnPlaces).toNat
  let k := (x + quarterTurn / 2) / quarterTurn
  (k, (x : Int) - (k * quarterTurn : Nat))

def ofPlaces (negative : Bool) (n : Nat) : Float := ofFraction negative n (2 ^ places)

def circular (negative : Bool) (mantissa : Nat) (exponent : Int) : Float × Float :=
  let (k, r) := reduce mantissa exponent
  let (c, s) := circularSeries (r.natAbs / 2 ^ (turnPlaces - places)) 40 1 (2 ^ places)
  let below := decide (r < 0)
  match k % 4 with
  | 0 => (ofPlaces false c, ofPlaces (below != negative) s)
  | 1 => (ofPlaces (!below) s, ofPlaces negative c)
  | 2 => (ofPlaces true c, ofPlaces (below == negative) s)
  | _ => (ofPlaces below s, ofPlaces (!negative) c)

/-- Below `2 ^ -27` a cosine rounds to one, and a sine to its argument. -/
def isSlight (mantissa : Nat) (exponent : Int) : Bool :=
  exponent < 0 && mantissa * 2 ^ (27 : Nat) < 2 ^ exponent.natAbs

def cosSin (x : Float) : Option (Float × Float) :=
  match value x with
  | .nan => some (x, x)
  | .infinite _ => none
  | .finite negative mantissa exponent =>
    some (if isSlight mantissa exponent then (1, x) else circular negative mantissa exponent)

end Lindenmayer.Binary64
