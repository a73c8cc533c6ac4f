import Lindenmayer.Proofs.Decimal.Rounding
import Mathlib.Data.Int.Order.Basic

/-! Rounding to fifty-three binary digits, in whole numbers. The larger of two numbers is never rounded to
the smaller one, and a number that has so few digits is not rounded at all. -/

namespace Lindenmayer

namespace Decimal

lemma roundDiv_mono {m n den : ℕ} (hden : 0 < den) (h : m ≤ n) : roundDiv m den ≤ roundDiv n den := by
  obtain ⟨hle, -, hodd⟩ := roundDiv_near m hden
  obtain ⟨-, hge, heven⟩ := roundDiv_near n hden
  set a := roundDiv m den
  set b := roundDiv n den
  by_contra hab
  have hstep : (b + 1) * den ≤ a * den := Nat.mul_le_mul_right den (not_le.mp hab)
  rw [Nat.succ_mul] at hstep
  -- Two places apart there is room for one number only, halfway between them, and both were even.
  have ha : Even a := hodd (.inl (by omega))
  have hb : Even b := heven (.inr (by omega))
  have hsucc : a = b + 1 := by
    apply Nat.eq_of_mul_eq_mul_right hden
    rw [Nat.succ_mul]
    omega
  rw [hsucc, Nat.even_add_one] at ha
  exact ha hb

lemma roundDiv_mul_mul (n den : ℕ) {c : ℕ} (hc : 0 < c) :
    roundDiv (n * c) (den * c) = roundDiv n den := by
  have hlt : 2 * (n % den * c) < den * c ↔ 2 * (n % den) < den := by
    rw [← Nat.mul_assoc, Nat.mul_lt_mul_right hc]
  have hgt : den * c < 2 * (n % den * c) ↔ den < 2 * (n % den) := by
    rw [← Nat.mul_assoc, Nat.mul_lt_mul_right hc]
  simp only [roundDiv, Nat.mul_div_mul_right _ _ hc, Nat.mul_mod_mul_right, hlt, hgt]

lemma roundDiv_zero (den : ℕ) : roundDiv 0 den = 0 := by
  simp [roundDiv]

end Decimal

namespace Binary64

open Decimal (roundDiv)

/-- How many binary places of a number go: all that fifty-three digits leave behind, and at least `k`. -/
def lost (k n : ℕ) : ℕ := max (n.log2 - 52) k

/-- A number rounded to fifty-three binary digits and to a multiple of `2 ^ k`, counted in these. -/
def rounded (k n : ℕ) : ℕ := roundDiv n (2 ^ lost k n) * 2 ^ (lost k n - k)

lemma le_lost (k n : ℕ) : k ≤ lost k n := le_max_right _ _

lemma rounded_of_few {k j m : ℕ} (hm : m < 2 ^ 53) : rounded k (m * 2 ^ (j + k)) = m * 2 ^ j := by
  have hlog : (m * 2 ^ (j + k)).log2 - 52 ≤ j + k := by
    rcases Nat.eq_zero_or_pos m with rfl | hpos
    · simp
    · have hne : m * 2 ^ (j + k) ≠ 0 := (Nat.mul_pos hpos (Nat.two_pow_pos _)).ne'
      have hlt : m * 2 ^ (j + k) < 2 ^ (53 + (j + k)) := by
        rw [Nat.pow_add 2 53]
        exact Nat.mul_lt_mul_of_pos_right hm (Nat.two_pow_pos _)
      have := (Nat.log2_lt hne).mpr hlt
      omega
  have hle : lost k (m * 2 ^ (j + k)) ≤ j + k := max_le hlog (Nat.le_add_left k j)
  have hge := le_lost k (m * 2 ^ (j + k))
  unfold rounded
  set s := lost k (m * 2 ^ (j + k))
  have hsplit : m * 2 ^ (j + k) = m * 2 ^ (j + k - s) * 2 ^ s := by
    rw [Nat.mul_assoc, ← Nat.pow_add, Nat.sub_add_cancel hle]
  rw [hsplit, Decimal.roundDiv_mul_right _ (Nat.two_pow_pos _), Nat.mul_assoc, ← Nat.pow_add]
  congr 2
  omega

lemma roundDiv_le_two_pow {n b s : ℕ} (h : n ≤ 2 ^ (b + s)) : roundDiv n (2 ^ s) ≤ 2 ^ b := by
  have hle := Decimal.roundDiv_mono (Nat.two_pow_pos s) h
  rwa [Nat.pow_add, Decimal.roundDiv_mul_right _ (Nat.two_pow_pos s)] at hle

lemma two_pow_le_roundDiv {n b s : ℕ} (h : 2 ^ (b + s) ≤ n) : 2 ^ b ≤ roundDiv n (2 ^ s) := by
  have hle := Decimal.roundDiv_mono (Nat.two_pow_pos s) h
  rwa [Nat.pow_add, Decimal.roundDiv_mul_right _ (Nat.two_pow_pos s)] at hle

lemma rounded_le_two_pow {k n a : ℕ} (hn : n ≤ 2 ^ a) (ha : lost k n ≤ a) :
    rounded k n ≤ 2 ^ (a - k) := by
  have hk := le_lost k n
  have hle : roundDiv n (2 ^ lost k n) ≤ 2 ^ (a - lost k n) :=
    roundDiv_le_two_pow (by rwa [Nat.sub_add_cancel ha])
  calc rounded k n
      ≤ 2 ^ (a - lost k n) * 2 ^ (lost k n - k) := Nat.mul_le_mul_right _ hle
    _ = 2 ^ (a - k) := by
        rw [← Nat.pow_add]
        congr 1
        omega

lemma two_pow_le_rounded {k n a : ℕ} (hn : 2 ^ a ≤ n) (ha : lost k n ≤ a) :
    2 ^ (a - k) ≤ rounded k n := by
  have hk := le_lost k n
  have hle : 2 ^ (a - lost k n) ≤ roundDiv n (2 ^ lost k n) :=
    two_pow_le_roundDiv (by rwa [Nat.sub_add_cancel ha])
  calc 2 ^ (a - k)
      = 2 ^ (a - lost k n) * 2 ^ (lost k n - k) := by
        rw [← Nat.pow_add]
        congr 1
        omega
    _ ≤ rounded k n := Nat.mul_le_mul_right _ hle

lemma rounded_mono (k : ℕ) {m n : ℕ} (h : m ≤ n) : rounded k m ≤ rounded k n := by
  have hlog : m.log2 ≤ n.log2 := by
    rcases Nat.eq_zero_or_pos m with rfl | hpos
    · simp
    · exact (Nat.le_log2 (by omega)).mpr ((Nat.log2_self_le hpos.ne').trans h)
  have hlost : lost k m ≤ lost k n := max_le_max (Nat.sub_le_sub_right hlog 52) le_rfl
  rcases hlost.eq_or_lt with heq | hlt
  · unfold rounded
    rw [heq]
    exact Nat.mul_le_mul_right _ (Decimal.roundDiv_mono (Nat.two_pow_pos _) h)
  · -- The smaller number has fewer digits, and a power of two stands between the two.
    have hn : lost k n = n.log2 - 52 := by
      have := le_lost k m
      unfold lost at hlt this ⊢
      omega
    have hdigits : m.log2 < n.log2 := by
      unfold lost at hlt
      omega
    have hm : m ≤ 2 ^ n.log2 :=
      (Nat.lt_log2_self (n := m)).le.trans (Nat.pow_le_pow_right (by decide) hdigits)
    have hpos : n ≠ 0 := by
      rintro rfl
      simp at hdigits
    exact (rounded_le_two_pow hm (by omega)).trans
      (two_pow_le_rounded (Nat.log2_self_le hpos) (by omega))

end Binary64

end Lindenmayer
