import Lindenmayer.Decimal.Rounding
import Mathlib.Algebra.Order.Field.Basic
import Mathlib.Algebra.Order.Field.Rat
import Mathlib.Tactic.Linarith
import Mathlib.Tactic.Ring
import Mathlib.Tactic.FieldSimp

/-! Rounding to whole numbers and to decimals. The whole number that a division is rounded to is never
more than a half away, and the even one where two are as near. -/

namespace Lindenmayer.Decimal

def IsNearest (q : ℚ) (n : ℤ) : Prop := |q - n| ≤ 1 / 2 ∧ (|q - n| = 1 / 2 → Even n)

/-- The decimal with so many places that is nearest to a number; of two, the one with an even end. -/
def IsRounded (places : ℕ) (q r : ℚ) : Prop :=
  ∃ n : ℤ, r = n / 10 ^ places ∧ IsNearest (q * 10 ^ places) n

lemma IsNearest.neg {q : ℚ} {n : ℤ} (h : IsNearest q n) : IsNearest (-q) (-n) := by
  have habs : |-q - ((-n : ℤ) : ℚ)| = |q - n| := by
    rw [Int.cast_neg, ← neg_sub', abs_neg]
  rw [IsNearest, habs]
  exact h.imp_right fun heven htie => (heven htie).neg

lemma isNearest_self (n : ℤ) : IsNearest n n := by
  simp [IsNearest]

lemma IsRounded.neg {places : ℕ} {q r : ℚ} (h : IsRounded places q r) :
    IsRounded places (-q) (-r) := by
  obtain ⟨n, rfl, hn⟩ := h
  refine ⟨-n, by rw [Int.cast_neg, neg_div], ?_⟩
  rw [neg_mul]
  exact hn.neg

/-- How far a rounded quotient is from the exact one, in units of the divisor. -/
lemma roundDiv_near (num : ℕ) {den : ℕ} (h : 0 < den) :
    2 * (roundDiv num den * den) ≤ 2 * num + den ∧ 2 * num ≤ 2 * (roundDiv num den * den) + den ∧
      (2 * num + den = 2 * (roundDiv num den * den) ∨ 2 * (roundDiv num den * den) + den = 2 * num →
        Even (roundDiv num den)) := by
  have hdivision := Nat.div_add_mod num den
  have hlt := Nat.mod_lt num h
  unfold roundDiv
  set q := num / den
  set r := num % den
  have hcomm : den * q = q * den := Nat.mul_comm den q
  simp only
  split
  · omega
  · have hsucc : (q + 1) * den = q * den + den := Nat.succ_mul q den
    split
    · omega
    · have heven : Even (q + q % 2) := by
        rw [Nat.even_iff]
        omega
      refine ⟨?_, ?_, fun _ => heven⟩
      all_goals
        rcases Nat.mod_two_eq_zero_or_one q with hq | hq
        · rw [hq, Nat.add_zero]
          omega
        · rw [hq]
          omega

lemma roundDiv_isNearest (num : ℕ) {den : ℕ} (h : 0 < den) :
    IsNearest (num / den) (roundDiv num den) := by
  have hden : (0 : ℚ) < den := Nat.cast_pos.mpr h
  obtain ⟨hle, hge, htie⟩ := roundDiv_near num h
  set n := roundDiv num den
  have hle' : 2 * ((n : ℚ) * den) ≤ 2 * num + den := by exact_mod_cast hle
  have hge' : 2 * (num : ℚ) ≤ 2 * (n * den) + den := by exact_mod_cast hge
  have hdist : (num : ℚ) / den - ((n : ℤ) : ℚ) = (num - n * den) / den := by
    rw [Int.cast_natCast]
    field_simp
  rw [IsNearest, hdist, abs_div, abs_of_pos hden, div_le_iff₀ hden, div_eq_iff hden.ne', abs_le]
  refine ⟨⟨by linarith, by linarith⟩, fun heq => ?_⟩
  refine (Int.even_coe_nat n).mpr (htie ?_)
  rcases eq_or_eq_neg_of_abs_eq heq with hhigh | hlow
  · right
    have : 2 * ((n : ℚ) * den) + den = 2 * num := by linarith
    exact_mod_cast this
  · left
    have : 2 * (num : ℚ) + den = 2 * (n * den) := by linarith
    exact_mod_cast this

end Lindenmayer.Decimal
