/-!
Division to the nearest whole number; a quotient halfway between two goes to the even one.
-/

namespace Lindenmayer.Decimal

def roundDiv (num den : Nat) : Nat :=
  let q := num / den
  let r := num % den
  if 2 * r < den then q else if den < 2 * r then q + 1 else q + q % 2

theorem roundDiv_mul_right (n : Nat) {den : Nat} (h : 0 < den) : roundDiv (n * den) den = n := by
  simp [roundDiv, Nat.mul_div_cancel n h, h]

end Lindenmayer.Decimal
