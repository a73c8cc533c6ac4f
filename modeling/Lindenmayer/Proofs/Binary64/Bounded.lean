import Lindenmayer.Proofs.Binary64.Arithmetic

/-! Sums that stay within a bound. What a small double adds to a large one is rounded off again, and so
no number of small steps leads beyond a bound that is large beside them. Sums of multiples of a power of
two are multiples of it, for rounding only drops what lies below. -/

namespace Lindenmayer.Binary64

structure Within (b : ℕ) (x : Float) : Prop where
  isFinite : x.isFinite = true
  abs_le : |unitsOf x| ≤ b

variable {b d k : ℕ} {x y : Float}

lemma within_of_abs_le (hx : x.isNaN = false) (hb : b < overflow) (h : |unitsOf x| ≤ b) :
    Within b x :=
  ⟨(abs_unitsOf_lt_iff hx).mp (h.trans_lt (by exact_mod_cast hb)), h⟩

/-- To a bound from which a step does not lead, no step leads beyond it either. -/
lemma abs_nearest_le {z : ℤ} (hstay : nearest 0 (b + d) = b) (hz : |z| ≤ b + d) :
    |nearest 0 z| ≤ b := by
  obtain ⟨hlow, hhigh⟩ := abs_le.mp hz
  have hupper := nearest_mono 0 hhigh
  have hlower := nearest_mono 0 hlow
  rw [nearest_neg] at hlower
  exact abs_le.mpr ⟨by omega, by omega⟩

lemma abs_capped_le (z : ℤ) : |capped z| ≤ |z| := by
  have hpos := overflow_pos
  unfold capped
  rcases abs_cases z with ⟨h, hz⟩ | ⟨h, hz⟩ <;> rw [h, abs_le] <;> omega

section Stay

variable (hx : Within b x) (hy : Within d y) (hb : b < overflow) (hstay : nearest 0 (b + d) = b)

include hx hy hb hstay

lemma Within.add : Within b (x + y) := by
  obtain ⟨hnumber, hsum⟩ := unitsOf_add hx.isFinite hy.isFinite
  refine within_of_abs_le hnumber hb ?_
  rw [hsum]
  exact (abs_capped_le _).trans
    (abs_nearest_le hstay ((abs_add_le _ _).trans (add_le_add hx.abs_le hy.abs_le)))

lemma Within.sub : Within b (x - y) := by
  obtain ⟨hnumber, hdifference⟩ := unitsOf_sub hx.isFinite hy.isFinite
  refine within_of_abs_le hnumber hb ?_
  rw [hdifference]
  exact (abs_capped_le _).trans
    (abs_nearest_le hstay ((abs_sub _ _).trans (add_le_add hx.abs_le hy.abs_le)))

end Stay

section Multiples

lemma two_pow_dvd_rounded {n : ℕ} (h : 2 ^ k ∣ n) : 2 ^ k ∣ rounded 0 n := by
  unfold rounded
  rw [Nat.sub_zero]
  generalize lost 0 n = j
  rcases Nat.le_total k j with hle | hle
  · exact (Nat.pow_dvd_pow 2 hle).mul_left _
  · obtain ⟨m, rfl⟩ := (Nat.pow_dvd_pow 2 hle).trans h
    rwa [Nat.mul_comm _ m, Decimal.roundDiv_mul_right m (Nat.two_pow_pos j), Nat.mul_comm m]

lemma two_pow_dvd_nearest {z : ℤ} (h : (2 : ℤ) ^ k ∣ z) : (2 : ℤ) ^ k ∣ nearest 0 z := by
  have habs : 2 ^ k ∣ rounded 0 z.natAbs := by
    apply two_pow_dvd_rounded
    rw [← Int.natCast_dvd]
    exact_mod_cast h
  unfold nearest
  split
  · exact_mod_cast habs
  · exact (Int.dvd_neg).mpr (by exact_mod_cast habs)

lemma capped_eq_self {z : ℤ} (h : |capped z| < overflow) : capped z = z := by
  unfold capped at *
  have := abs_lt.mp h
  omega

lemma two_pow_dvd_add (h : (x + y).isFinite = true) (hx : (2 : ℤ) ^ k ∣ unitsOf x)
    (hy : (2 : ℤ) ^ k ∣ unitsOf y) : (2 : ℤ) ^ k ∣ unitsOf (x + y) := by
  obtain ⟨hfx, hfy⟩ := isFinite_add h
  obtain ⟨hnumber, hsum⟩ := unitsOf_add hfx hfy
  have hlt := (abs_unitsOf_lt_iff hnumber).mpr h
  rw [hsum] at hlt ⊢
  rw [capped_eq_self hlt]
  exact two_pow_dvd_nearest (dvd_add hx hy)

lemma two_pow_dvd_sub (h : (x - y).isFinite = true) (hx : (2 : ℤ) ^ k ∣ unitsOf x)
    (hy : (2 : ℤ) ^ k ∣ unitsOf y) : (2 : ℤ) ^ k ∣ unitsOf (x - y) := by
  obtain ⟨hfx, hfy⟩ := isFinite_sub h
  obtain ⟨hnumber, hdifference⟩ := unitsOf_sub hfx hfy
  have hlt := (abs_unitsOf_lt_iff hnumber).mpr h
  rw [hdifference] at hlt ⊢
  rw [capped_eq_self hlt]
  exact two_pow_dvd_nearest (dvd_sub hx hy)

end Multiples

end Lindenmayer.Binary64
