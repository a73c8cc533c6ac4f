import Lindenmayer.Proofs.Binary64.Arithmetic
import Lindenmayer.Proofs.Binary64.Decoded

/-! One numeral for each number. Numerals that say the same are the same, and so the doubles that lie
between two with one numeral have that numeral. -/

namespace Lindenmayer

namespace Decimal

open Binary64 (signed)

lemma trimZeros_concat_zero (ds : List Char) : trimZeros (ds ++ ['0']) = trimZeros ds := by
  simp [trimZeros]

lemma paddedDigits_mul_ten (places n : ℕ) :
    paddedDigits (places + 1) (n * 10) = paddedDigits places n ++ ['0'] := by
  rw [paddedDigits, Nat.mul_div_cancel n (by decide), Nat.mul_mod_left]
  rfl

lemma numeral_mul_ten (negative : Bool) (places n : ℕ) :
    numeral negative (places + 1) (n * 10) = numeral negative places n := by
  have hsign : (n * 10 != 0) = (n != 0) := by
    rw [Bool.eq_iff_iff, bne_iff_ne, bne_iff_ne]
    omega
  have hwhole : n * 10 / 10 ^ (places + 1) = n / 10 ^ places := by
    rw [Nat.pow_succ, Nat.mul_div_mul_right _ _ (by decide)]
  have hdecimals : n * 10 % 10 ^ (places + 1) = n % 10 ^ places * 10 := by
    rw [Nat.pow_succ, Nat.mul_mod_mul_right]
  rw [numeral, numeral, hsign, hwhole, hdecimals, paddedDigits_mul_ten, trimZeros_concat_zero]

lemma numeral_mul_pow (negative : Bool) (places n k : ℕ) :
    numeral negative (places + k) (n * 10 ^ k) = numeral negative places n := by
  induction k with
  | zero => rw [Nat.pow_zero, Nat.mul_one, Nat.add_zero]
  | succ k ih => rw [Nat.pow_succ, ← Nat.mul_assoc, ← Nat.add_assoc, numeral_mul_ten, ih]

lemma numeral_congr {s t : Bool} {m n : ℕ} (places : ℕ) (h : signed s (m : ℚ) = signed t n) :
    numeral s places m = numeral t places n := by
  have hsame : m = n ∧ (s = t ∨ m = 0) := by
    cases s <;> cases t <;> simp only [signed, if_true, Bool.false_eq_true, if_false] at h <;>
      norm_cast at h <;> simp only [reduceCtorEq, true_or, false_or, and_true] <;> omega
  obtain ⟨rfl, rfl | rfl⟩ := hsame
  · rfl
  · cases s <;> cases t <;> rfl

lemma signed_div (s : Bool) (q r : ℚ) : signed s (q / r) = signed s q / r := by
  cases s with
  | false => rfl
  | true => exact (neg_div r q).symm

lemma signed_mul (s : Bool) (q r : ℚ) : signed s (q * r) = signed s q * r := by
  cases s with
  | false => rfl
  | true => exact (neg_mul q r).symm

/-- Numerals that say the same number are the same, with however many decimals. -/
lemma numeral_eq_of_value {s t : Bool} {k l m n : ℕ}
    (h : signed s ((m : ℚ) / 10 ^ k) = signed t ((n : ℚ) / 10 ^ l)) :
    numeral s k m = numeral t l n := by
  have hk : (10 : ℚ) ^ k ≠ 0 := pow_ne_zero k (by norm_num)
  have hl : (10 : ℚ) ^ l ≠ 0 := pow_ne_zero l (by norm_num)
  rw [signed_div, signed_div, div_eq_div_iff hk hl, ← signed_mul, ← signed_mul] at h
  rw [← numeral_mul_pow s k m l, ← numeral_mul_pow t l n k, Nat.add_comm l k]
  apply numeral_congr
  push_cast
  exact h

lemma fixed_eq_of_numeralValue? {places : ℕ} {x y : Float} {q : ℚ}
    (hx : numeralValue? (fixed places x) = some q) (hy : numeralValue? (fixed places y) = some q) :
    fixed places x = fixed places y := by
  unfold fixed at hx hy ⊢
  cases hvx : Binary64.value x with
  | nan =>
    rw [hvx] at hx
    cases hx
  | infinite negative =>
    rw [hvx] at hx
    cases negative <;> cases hx
  | finite s m e =>
    cases hvy : Binary64.value y with
    | nan =>
      rw [hvy] at hy
      cases hy
    | infinite negative =>
      rw [hvy] at hy
      cases negative <;> cases hy
    | finite t n f =>
      rw [hvx] at hx
      rw [hvy] at hy
      simp only [numeralValue?_numeral, Option.some_inj] at hx hy ⊢
      exact numeral_eq_of_value (hx.trans hy.symm)

lemma IsNearest.mono {q r : ℚ} {m n : ℤ} (hm : IsNearest q m) (hn : IsNearest r n) (h : q ≤ r) :
    m ≤ n := by
  by_contra hlt
  have hstep : (n : ℚ) + 1 ≤ m := by exact_mod_cast not_le.mp hlt
  obtain ⟨hlow, -⟩ := abs_le.mp hm.1
  obtain ⟨-, hhigh⟩ := abs_le.mp hn.1
  -- There is no room but for one number halfway between the two, and both were even.
  have hm' : q - m = -(1 / 2) := by linarith
  have hn' : r - n = 1 / 2 := by linarith
  have hevenm : Even m := hm.2 (by rw [hm', abs_neg, abs_of_pos (by norm_num)])
  have hevenn : Even n := hn.2 (by rw [hn', abs_of_pos (by norm_num)])
  have hsucc : m = n + 1 := by
    have : (m : ℚ) = n + 1 := by linarith
    exact_mod_cast this
  rw [hsucc, Int.even_add_one] at hevenm
  exact hevenm hevenn

lemma IsRounded.mono {places : ℕ} {q r q' r' : ℚ} (h : IsRounded places q q')
    (h' : IsRounded places r r') (hle : q ≤ r) : q' ≤ r' := by
  obtain ⟨m, rfl, hm⟩ := h
  obtain ⟨n, rfl, hn⟩ := h'
  have hpower : (0 : ℚ) < 10 ^ places := pow_pos (by norm_num) places
  have hmn : (m : ℚ) ≤ n := by
    exact_mod_cast hm.mono hn (mul_le_mul_of_nonneg_right hle hpower.le)
  exact div_le_div_of_nonneg_right hmn hpower.le

lemma IsRounded.unique {places : ℕ} {q r s : ℚ} (hr : IsRounded places q r) (hs : IsRounded places q s) :
    r = s :=
  le_antisymm (hr.mono hs le_rfl) (hs.mono hr le_rfl)

end Decimal

namespace Binary64

open Float.Model (UnpackedFloat)
open Float.Model.UnpackedFloat

lemma rational?_eq {x : Float} (hx : x.isFinite = true) :
    rational? x = some ((unitsOf x : ℚ) / 2 ^ 1074) := by
  have hcanonical := canonical_unpack x
  have hfinite : x.toModel.unpack.isFinite = true := hx
  rw [rational?, value_eq_valueOf, unitsOf]
  cases hunpack : x.toModel.unpack with
  | infinity | notANumber =>
    rw [hunpack] at hfinite
    cases hfinite
  | zero s => cases s <;> simp [valueOf, units, signed]
  | finite s m e hm =>
    rw [hunpack] at hcanonical
    have hlow := hcanonical.2.1
    have hexponent : (e + 1074).toNat = e + 1074 := Int.toNat_of_nonneg (by omega)
    have hscale : (m : ℚ) * 2 ^ e = (m * 2 ^ (e + 1074).toNat : ℕ) / 2 ^ 1074 := by
      have hsplit : (2 : ℚ) ^ (e + 1074).toNat = 2 ^ e * 2 ^ 1074 := by
        rw [← zpow_natCast, hexponent, zpow_add₀ (by norm_num)]
        norm_cast
      rw [Nat.cast_mul, Nat.cast_pow, Nat.cast_ofNat, hsplit, ← mul_assoc, mul_div_cancel_right₀]
      exact pow_ne_zero _ (by norm_num)
    cases s with
    | positive => exact congrArg some hscale
    | negative =>
      change some (-((m : ℚ) * 2 ^ e)) = some (((-(m * 2 ^ (e + 1074).toNat : ℕ) : ℤ) : ℚ) / 2 ^ 1074)
      rw [hscale, Int.cast_neg, neg_div, Int.cast_natCast]

end Binary64

namespace Decimal

open Binary64 (unitsOf rational?_eq)

lemma isRounded_fixed (places : ℕ) {x : Float} (hx : x.isFinite = true) :
    ∃ q, numeralValue? (fixed places x) = some q ∧ IsRounded places (unitsOf x / 2 ^ 1074) q := by
  have hsays := numeralValue?_fixed places x
  rw [rational?_eq hx] at hsays
  generalize numeralValue? (fixed places x) = r at hsays
  cases hsays with
  | some h => exact ⟨_, rfl, h⟩

variable {places : ℕ} {x y z : Float}

lemma fixed_eq_of_between (hx : x.isFinite = true) (hy : y.isFinite = true) (hz : z.isFinite = true)
    (hxy : unitsOf x ≤ unitsOf y) (hyz : unitsOf y ≤ unitsOf z)
    (h : fixed places x = fixed places z) : fixed places y = fixed places x := by
  obtain ⟨p, hp, hpx⟩ := isRounded_fixed places hx
  obtain ⟨q, hq, hqy⟩ := isRounded_fixed places hy
  obtain ⟨r, hr, hrz⟩ := isRounded_fixed places hz
  obtain rfl : p = r := by rw [h, hr] at hp; exact (Option.some.inj hp).symm
  have hscale : (0 : ℚ) ≤ 2 ^ 1074 := by positivity
  have hpq : p ≤ q :=
    hpx.mono hqy (div_le_div_of_nonneg_right (by exact_mod_cast hxy) hscale)
  have hqp : q ≤ p :=
    hqy.mono hrz (div_le_div_of_nonneg_right (by exact_mod_cast hyz) hscale)
  obtain rfl := le_antisymm hpq hqp
  exact fixed_eq_of_numeralValue? hq hp

/-- The two zeros have one numeral. -/
lemma fixed_eq_of_unitsOf (hx : x.isFinite = true) (hy : y.isFinite = true)
    (h : unitsOf x = unitsOf y) : fixed places x = fixed places y :=
  (fixed_eq_of_between hx hy hx h.le h.ge rfl).symm

end Decimal

end Lindenmayer
