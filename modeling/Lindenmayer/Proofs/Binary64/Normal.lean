import Lindenmayer.Proofs.Binary64.Units

/-! Rounding a mantissa to a double. The bits that are shifted out leave what is needed of them, and the
mantissa that remains is the rounded quotient. -/

namespace Lindenmayer.Binary64

open Float.Model (UnpackedFloat Format totalExponent)
open Float.Model.UnpackedFloat
open Decimal (roundDiv)

/-- A mantissa that is shifted right keeps what rounding needs of the remainder: whether it is a half at
least, and whether it differs from none and from a half. -/
lemma shiftRight_eq (m j : ℕ) :
    ExtendedMantissa.ofMantissaAndAccuracy m .exact >>> j =
      ⟨m / 2 ^ j, decide (2 ^ j ≤ 2 * (m % 2 ^ j)), decide (2 * (m % 2 ^ j) % 2 ^ j ≠ 0)⟩ := by
  induction j with
  | zero => 
    change ExtendedMantissa.mk m false false = _
    simp [Nat.mod_one]
  | succ j ih =>
    have hshift : ExtendedMantissa.ofMantissaAndAccuracy m .exact >>> (j + 1) =
      (ExtendedMantissa.ofMantissaAndAccuracy m .exact >>> j).shiftRightOne := rfl
    have hlt : m % 2 ^ j < 2 ^ j := Nat.mod_lt m (Nat.two_pow_pos j)
    have hmod : m % 2 ^ (j + 1) = m % 2 ^ j + 2 ^ j * (m / 2 ^ j % 2) := Nat.mod_mul
    have hbit := Nat.mod_two_eq_zero_or_one (m / 2 ^ j)
    have hround : (m / 2 ^ j % 2 != 0) = decide (2 ^ (j + 1) ≤ 2 * (m % 2 ^ (j + 1))) := by
      rw [Bool.eq_iff_iff, bne_iff_ne, decide_eq_true_iff, hmod, Nat.pow_succ]
      rcases hbit with hbit | hbit <;> rw [hbit] <;> omega
    have hsticky : (decide (2 ^ j ≤ 2 * (m % 2 ^ j)) || decide (2 * (m % 2 ^ j) % 2 ^ j ≠ 0)) =
        decide (2 * (m % 2 ^ (j + 1)) % 2 ^ (j + 1) ≠ 0) := by
      have hrest : 2 * (m % 2 ^ (j + 1)) % 2 ^ (j + 1) = 2 * (m % 2 ^ j) := by
        rw [hmod, Nat.mul_add, ← Nat.mul_assoc, ← Nat.pow_succ', Nat.add_mul_mod_self_left]
        apply Nat.mod_eq_of_lt
        rw [Nat.pow_succ]
        omega
      rw [Bool.eq_iff_iff, Bool.or_eq_true, decide_eq_true_iff, decide_eq_true_iff,
        decide_eq_true_iff, hrest]
      rcases Nat.lt_or_ge (2 * (m % 2 ^ j)) (2 ^ j) with h | h
      · rw [Nat.mod_eq_of_lt h]
        omega
      · omega
    rw [hshift, ih, ExtendedMantissa.shiftRightOne, Nat.div_div_eq_div_mul, hround, hsticky]
    rfl

lemma roundedMantissa_shiftRight (m j : ℕ) :
    (ExtendedMantissa.ofMantissaAndAccuracy m .exact >>> j).roundedMantissa =
      roundDiv m (2 ^ j) := by
  have hlt : m % 2 ^ j < 2 ^ j := Nat.mod_lt m (Nat.two_pow_pos j)
  rw [shiftRight_eq, ExtendedMantissa.roundedMantissa, roundDiv]
  split
  · next hlow =>
    rw [decide_eq_false (by omega)]
    cases decide (2 * (m % 2 ^ j) % 2 ^ j ≠ 0) <;> rfl
  · next hlow =>
    rw [decide_eq_true (by omega)]
    have hrest : 2 * (m % 2 ^ j) % 2 ^ j = 2 * (m % 2 ^ j) - 2 ^ j := by
      rw [Nat.mod_eq_sub_mod (by omega), Nat.mod_eq_of_lt (by omega)]
    split
    · next hhigh =>
      rw [decide_eq_true (by omega)]
      rfl
    · next hhigh =>
      rw [decide_eq_false (by omega)]
      rfl

def target (m : ℕ) (e : ℤ) : ℤ := max (m.log2 + e - 52) (-1074)

lemma targetExponent_eq (m : ℕ) (e : ℤ) :
    Format.binary64.targetExponent (totalExponent m e) = target m e := by
  change max ((m.log2 : ℤ) + 1 + e - 53) (-1074) = _
  unfold target
  omega

lemma shiftToTargetExponent_eq (m : ℕ) (e : ℤ) :
    shiftToTargetExponent Format.binary64 m e .exact =
      (ExtendedMantissa.ofMantissaAndAccuracy m .exact >>> (target m e - e).toNat,
        e + (target m e - e).toNat) := by
  rw [← targetExponent_eq]
  rfl

lemma log2_le_of_lt {m : ℕ} (h : m < 2 ^ 53) : m.log2 ≤ 52 := by
  rcases Nat.eq_zero_or_pos m with rfl | hpos
  · simp
  · exact Nat.le_of_lt_succ ((Nat.log2_lt hpos.ne').mpr h)

/-- Rounding may carry into a fifty-fourth digit, and then the last one is a zero. -/
lemma roundWithAccuracy_eq {m r : ℕ} {e e' : ℤ} (s : Sign) (he' : max e (target m e) = e')
    (hr : roundDiv m (2 ^ (target m e - e).toNat) = r) (hle : r ≤ 2 ^ 53) :
    roundWithAccuracy Format.binary64 s m e .exact =
      if h : r = 0 then .zero s
      else if r < 2 ^ 53 then .finite s r e' (Nat.pos_of_ne_zero h)
      else .finite s (2 ^ 52) (e' + 1) (by decide) := by
  have hge : -1074 ≤ e' := by
    unfold target at he'
    omega
  have hshifted : e + (target m e - e).toNat = e' := by omega
  rw [roundWithAccuracy, shiftToTargetExponent_eq m e, hshifted]
  dsimp only
  rw [roundedMantissa_shiftRight, hr]
  rcases hle.lt_or_eq with hlt | rfl
  · have hshift : (target r e' - e').toNat = 0 := by
      have hlog := log2_le_of_lt hlt
      unfold target
      omega
    have hstay : shiftToTargetExponent Format.binary64 r e' .exact = (⟨r, false, false⟩, e') := by
      rw [shiftToTargetExponent_eq, hshift, Nat.cast_zero, add_zero]
      rfl
    rw [hstay]
    simp only [hlt, if_true]
  · have hshift : (target (2 ^ 53) e' - e').toNat = 1 := by
      unfold target
      rw [Nat.log2_two_pow]
      omega
    have hcarry : shiftToTargetExponent Format.binary64 (2 ^ 53) e' .exact =
        (⟨2 ^ 52, false, false⟩, e' + 1) := by
      rw [shiftToTargetExponent_eq, hshift]
      rfl
    rw [hcarry]
    rfl

lemma log2_mul_two_pow {m : ℕ} (hm : m ≠ 0) (a : ℕ) : (m * 2 ^ a).log2 = m.log2 + a := by
  have hpos := Nat.two_pow_pos a
  rw [Nat.log2_eq_iff (Nat.mul_ne_zero hm hpos.ne'), Nat.pow_add, Nat.add_right_comm, Nat.pow_add]
  exact ⟨Nat.mul_le_mul_right _ (Nat.log2_self_le hm),
    Nat.mul_lt_mul_of_pos_right Nat.lt_log2_self hpos⟩

section Round

variable {k m a : ℕ} {e : ℤ} (hm : m ≠ 0)

include hm

lemma rounded_eq (ha : e + 1074 + k = a) (he : e ≤ target m e) :
    rounded k (m * 2 ^ a) =
      roundDiv m (2 ^ (target m e - e).toNat) * 2 ^ (target m e + 1074).toNat := by
  have hlost : lost k (m * 2 ^ a) = (target m e - e).toNat + a := by
    unfold lost target at *
    rw [log2_mul_two_pow hm]
    omega
  have hunit : (target m e - e).toNat + a - k = (target m e + 1074).toNat := by omega
  rw [rounded, hlost, Nat.pow_add, Decimal.roundDiv_mul_mul _ _ (Nat.two_pow_pos a), hunit]

omit hm in
lemma roundDiv_target_le : roundDiv m (2 ^ (target m e - e).toNat) ≤ 2 ^ 53 := by
  have hdigits : m.log2 + 1 ≤ 53 + (target m e - e).toNat := by
    unfold target
    omega
  apply roundDiv_le_two_pow
  exact Nat.lt_log2_self.le.trans (Nat.pow_le_pow_right (by decide) hdigits)

lemma le_roundDiv_target (he : e ≤ target m e) :
    2 ^ 52 ≤ roundDiv m (2 ^ (target m e - e).toNat) ∨ target m e = -1074 := by
  rcases eq_or_ne (target m e) (-1074) with hsmall | hlarge
  · exact .inr hsmall
  · left
    have hdigits : 52 + (target m e - e).toNat = m.log2 := by
      unfold target at *
      omega
    apply two_pow_le_roundDiv
    rw [hdigits]
    exact Nat.log2_self_le hm

lemma denotes_roundWithAccuracy (s : Sign) (ha : e + 1074 + k = a) (he : e ≤ target m e) :
    Denotes (roundWithAccuracy Format.binary64 s m e .exact)
      (s.apply (rounded k (m * 2 ^ a))) := by
  have hle : roundDiv m (2 ^ (target m e - e).toNat) ≤ 2 ^ 53 := roundDiv_target_le
  have hdigits := le_roundDiv_target hm he
  have hge : -1074 ≤ target m e := le_max_right _ _
  rw [rounded_eq hm ha he, roundWithAccuracy_eq s (max_eq_right he) rfl hle]
  set r := roundDiv m (2 ^ (target m e - e).toNat)
  set t := target m e
  split
  · next hzero => 
    rw [hzero, Nat.zero_mul]
    exact ⟨trivial, rfl, by cases s <;> rfl⟩
  · split
    · next hlt => exact ⟨⟨hlt, hge, hdigits⟩, rfl, rfl⟩
    · next hlt =>
      have hcarry : r = 2 ^ 53 := by omega
      have hunit : (t + 1 + 1074).toNat = 1 + (t + 1074).toNat := by omega
      refine ⟨⟨by decide, by omega, .inl le_rfl⟩, rfl, ?_⟩
      rw [units, hcarry, hunit, Nat.pow_add, ← Nat.mul_assoc, ← Nat.pow_add]

lemma denotes_round (s : Sign) (ha : e + 1074 = a) :
    Denotes (round Format.binary64 s m e) (s.apply (rounded 0 (m * 2 ^ a))) := by
  have hsmallest : -1074 ≤ target m e := le_max_right _ _
  have hround : round Format.binary64 s m e =
      roundWithAccuracy Format.binary64 s (m <<< (e - target m e).toNat)
        (e - (e - target m e).toNat) .exact := by
    rw [← targetExponent_eq]
    rfl
  set d := (e - target m e).toNat
  have hne : m * 2 ^ d ≠ 0 := Nat.mul_ne_zero hm (Nat.two_pow_pos d).ne'
  have htarget : target (m * 2 ^ d) (e - d) = target m e := by
    unfold target
    rw [log2_mul_two_pow hm]
    congr 1
    omega
  have hsame : m * 2 ^ a = m * 2 ^ d * 2 ^ (a - d) := by
    rw [Nat.mul_assoc, ← Nat.pow_add, Nat.add_sub_cancel' (by omega)]
  rw [hround, Nat.shiftLeft_eq, hsame]
  exact denotes_roundWithAccuracy hne s (k := 0) (by omega) (by omega)

end Round

lemma denotes_normalize {z e : ℤ} {a : ℕ} (ha : e + 1074 = a) (s : Sign) :
    Denotes (UnpackedFloat.normalize Format.binary64 z e s) (nearest 0 (z * 2 ^ a)) := by
  rcases lt_trichotomy z 0 with hz | rfl | hz
  · have hcompare : compare z 0 = .lt := Int.compare_eq_lt.mpr hz
    have hvalue : z * 2 ^ a = Sign.negative.apply ((-z).toNat * 2 ^ a : ℕ) := by
      rw [Sign.apply, Nat.cast_mul, Int.toNat_of_nonneg (by omega)]
      push_cast
      ring
    rw [UnpackedFloat.normalize, hcompare, hvalue, nearest_apply]
    exact denotes_round (by omega) .negative ha
  · rw [UnpackedFloat.normalize, Int.zero_mul, nearest_zero]
    exact ⟨trivial, rfl, rfl⟩
  · have hcompare : compare z 0 = .gt := Int.compare_eq_gt.mpr hz
    have hvalue : z * 2 ^ a = Sign.positive.apply (z.toNat * 2 ^ a : ℕ) := by
      rw [Sign.apply, Nat.cast_mul, Int.toNat_of_nonneg hz.le]
      push_cast
      ring
    rw [UnpackedFloat.normalize, hcompare, hvalue, nearest_apply]
    exact denotes_round (by omega) .positive ha

end Lindenmayer.Binary64
