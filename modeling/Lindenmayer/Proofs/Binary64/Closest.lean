import Lindenmayer.Proofs.Binary64.Magnitude
import Lindenmayer.Proofs.Decimal.Canonical

/-! The double closest to a number. Doubles stand on a grid that is finer towards zero, and a number goes
to a point of the grid that is as fine as fifty-three digits allow: none of the doubles is closer. -/

namespace Lindenmayer

namespace Decimal

variable {q : ℚ} {m n : ℤ}

lemma one_le_distances (q : ℚ) (h : m ≠ n) : 1 ≤ |q - n| + |q - m| := by
  have hone : (1 : ℚ) ≤ |(m : ℚ) - n| := by exact_mod_cast Int.one_le_abs (sub_ne_zero.mpr h)
  have htriangle := abs_sub_le (m : ℚ) q n
  rw [abs_sub_comm (m : ℚ) q] at htriangle
  linarith

lemma IsNearest.le (h : IsNearest q n) (m : ℤ) : |q - n| ≤ |q - m| := by
  rcases eq_or_ne m n with rfl | hne
  · exact le_rfl
  · linarith [h.1, one_le_distances q hne]

lemma IsNearest.even_of_tie (h : IsNearest q n) (hne : m ≠ n) (htie : |q - n| = |q - m|) : Even n :=
  h.2 (le_antisymm h.1 (by linarith [one_le_distances q hne]))

end Decimal

namespace Binary64

open Decimal (IsNearest isNearest_self roundDiv roundDiv_isNearest)

/-- No double is closer to the number; and if another number is as close, the mantissa is even. -/
def IsClosest (q : ℚ) (x : Float) : Prop :=
  ∃ negative mantissa exponent, value x = .finite negative mantissa exponent ∧
    ∀ y r, rational? y = some r →
      |signed negative (mantissa * 2 ^ exponent) - q| ≤ |r - q| ∧
        (|signed negative (mantissa * 2 ^ exponent) - q| = |r - q| →
          r ≠ signed negative (mantissa * 2 ^ exponent) → Even mantissa)

def largest : ℕ := (2 ^ 53 - 1) * 2 ^ 971

lemma cast_largest : (largest : ℚ) = (2 ^ 53 - 1 : ℕ) * 2 ^ (971 : ℤ) := by
  rw [largest, Nat.cast_mul, Nat.cast_pow, Nat.cast_ofNat, ← zpow_natCast]
  rfl

lemma largest_lt : (largest : ℚ) < 2 ^ (1024 : ℤ) := by
  have hplace : (2 : ℚ) ^ (1024 : ℤ) = (2 ^ 53 : ℕ) * 2 ^ (971 : ℤ) := by
    rw [Nat.cast_pow, Nat.cast_ofNat, ← zpow_natCast, ← zpow_add₀ two_ne_zero]
    rfl
  rw [cast_largest, hplace]
  exact mul_lt_mul_of_pos_right (by norm_num) (zpow_pos two_pos _)

section Grid

variable {x : Float} {negative : Bool} {m : ℕ} {e f : ℤ} {q r : ℚ}

lemma value_bounds (h : value x = .finite negative m f) : m < 2 ^ 53 ∧ -1074 ≤ f ∧ f ≤ 971 := by
  unfold value at h
  dsimp only at h
  split at h
  · split at h <;> cases h
  · split at h <;> cases h <;> omega

lemma signed_signed (negative : Bool) (q : ℚ) : signed negative (signed negative q) = q := by
  cases negative <;> simp [signed]

lemma abs_signed (negative : Bool) (q : ℚ) : |signed negative q| = |q| := by
  cases negative <;> simp [signed]

lemma signed_sub (negative : Bool) (q r : ℚ) :
    signed negative q - signed negative r = signed negative (q - r) := by
  cases negative <;> simp [signed]
  ring

lemma exists_value (h : rational? x = some r) :
    ∃ negative m f, value x = .finite negative m f ∧ r = signed negative (m * 2 ^ f) := by
  unfold rational? at h
  split at h
  · next negative m f hvalue => exact ⟨negative, m, f, hvalue, (Option.some.inj h).symm⟩
  · cases h

/-- On which grid a double does not stand it is below the first number that needs fifty-three digits. -/
lemma onGrid_or_lt (h : rational? x = some r) (he : -1074 ≤ e) :
    (∃ c : ℤ, r = c * 2 ^ e) ∨ -1074 < e ∧ |r| < 2 ^ (52 + e) := by
  obtain ⟨negative, m, f, hvalue, rfl⟩ := exists_value h
  obtain ⟨hm, hf, -⟩ := value_bounds hvalue
  have htwo : (2 : ℚ) ≠ 0 := by norm_num
  rcases le_or_gt e f with hle | hlt
  · left
    obtain ⟨j, rfl⟩ := Int.le.dest hle
    refine ⟨if negative then -(m * 2 ^ j : ℕ) else (m * 2 ^ j : ℕ), ?_⟩
    rw [zpow_add₀ htwo, zpow_natCast]
    cases negative <;> simp [signed] <;> ring
  · right
    refine ⟨by omega, ?_⟩
    have hm' : (m : ℚ) < 2 ^ (53 : ℤ) := by exact_mod_cast hm
    rw [abs_signed, abs_of_nonneg (by positivity)]
    calc (m : ℚ) * 2 ^ f < 2 ^ (53 : ℤ) * 2 ^ f := mul_lt_mul_of_pos_right hm' (zpow_pos two_pos f)
      _ = 2 ^ (53 + f) := (zpow_add₀ htwo 53 f).symm
      _ ≤ 2 ^ (52 + e) := zpow_le_zpow_right₀ one_le_two (by omega)

lemma closest_on_grid {n : ℤ} (hnear : IsNearest (q / 2 ^ e) n) (hlarge : -1074 < e → 2 ^ (52 + e) ≤ q)
    (hr : (∃ c : ℤ, r = c * 2 ^ e) ∨ -1074 < e ∧ |r| < 2 ^ (52 + e)) :
    |n * 2 ^ e - q| ≤ |r - q| ∧ (|n * 2 ^ e - q| = |r - q| → r ≠ n * 2 ^ e → Even n) := by
  have hpos : (0 : ℚ) < 2 ^ e := zpow_pos two_pos e
  have hscaled (c : ℤ) : |(c : ℚ) * 2 ^ e - q| = |q / 2 ^ e - c| * 2 ^ e := by
    rw [abs_sub_comm, ← abs_of_pos hpos, ← abs_mul, abs_of_pos hpos, sub_mul, div_mul_cancel₀ q hpos.ne']
  have hgrid (c : ℤ) : |(n : ℚ) * 2 ^ e - q| ≤ |(c : ℚ) * 2 ^ e - q| := by
    rw [hscaled, hscaled]
    exact mul_le_mul_of_nonneg_right (hnear.le c) hpos.le
  rcases hr with ⟨c, rfl⟩ | ⟨he, hlt⟩
  · refine ⟨hgrid c, fun htie hne => ?_⟩
    rw [hscaled, hscaled] at htie
    refine hnear.even_of_tie ?_ (mul_right_cancel₀ hpos.ne' htie)
    rintro rfl
    exact hne rfl
  · -- The first number of fifty-three digits stands on the grid, between the double and the number.
    have hfirst : ((2 ^ 52 : ℤ) : ℚ) * 2 ^ e = 2 ^ (52 + e) := by
      rw [zpow_add₀ (by norm_num)]
      norm_num
    have hstep := hgrid (2 ^ 52)
    have hq := hlarge he
    rw [hfirst, abs_sub_comm (2 ^ (52 + e)) q, abs_of_nonneg (sub_nonneg.mpr hq)] at hstep
    have hr := (abs_lt.mp hlt).2
    have hdistance : |r - q| = q - r := by rw [abs_sub_comm, abs_of_pos (by linarith)]
    have hfar : |(n : ℚ) * 2 ^ e - q| < |r - q| := by linarith
    exact ⟨hfar.le, fun htie => absurd htie hfar.ne⟩

lemma isClosest_of_isNearest {n : ℕ} (hvalue : value x = .finite negative m f)
    (hsame : (m : ℚ) * 2 ^ f = n * 2 ^ e) (heven : Even n → Even m) (he : -1074 ≤ e)
    (hnear : IsNearest (q / 2 ^ e) n) (hlarge : -1074 < e → 2 ^ (52 + e) ≤ q) :
    IsClosest (signed negative q) x := by
  refine ⟨negative, m, f, hvalue, fun y r hr => ?_⟩
  have hgrid := onGrid_or_lt hr he
  have hmirror : (∃ c : ℤ, signed negative r = c * 2 ^ e) ∨
      -1074 < e ∧ |signed negative r| < 2 ^ (52 + e) := by
    rw [abs_signed]
    refine hgrid.imp_left fun ⟨c, hc⟩ => ?_
    refine ⟨if negative then -c else c, ?_⟩
    rw [hc]
    cases negative <;> simp [signed]
  obtain ⟨hle, htie⟩ := closest_on_grid hnear hlarge hmirror
  have hdistance : |r - signed negative q| = |signed negative r - q| := by
    rw [← abs_signed negative, ← signed_sub, signed_signed]
  rw [signed_sub, abs_signed, hsame, hdistance]
  refine ⟨by exact_mod_cast hle, fun heq hne => heven ?_⟩
  refine (Int.even_coe_nat n).mp (htie (by exact_mod_cast heq) fun hc => hne ?_)
  rw [← signed_signed negative r, hc, Int.cast_natCast]

end Grid

section Fields

/-- Rounding may carry into a fifty-fourth digit, and then the double has one digit and zeros. -/
lemma exists_value_ofMagnitudeBits {n : ℕ} {e : ℤ} (hge : -1074 ≤ e) (hle : n ≤ 2 ^ 53)
    (hdigits : e = -1074 ∨ 2 ^ 52 ≤ n) (hfits : (e + 1074).toNat * 2 ^ 52 + n < infinityBits)
    (negative : Bool) :
    ∃ m f, value (ofMagnitudeBits negative ((e + 1074).toNat * 2 ^ 52 + n)) = .finite negative m f ∧
      (m : ℚ) * 2 ^ f = n * 2 ^ e ∧ (Even n → Even m) := by
  obtain ⟨k, hk⟩ := Int.eq_ofNat_of_zero_le (show 0 ≤ e + 1074 by omega)
  obtain rfl : e = k - 1074 := by omega
  rw [hk, Int.toNat_natCast] at hfits ⊢
  rw [value_ofMagnitudeBits hfits]
  rcases hle.lt_or_eq with hlt | rfl
  · rcases Nat.lt_or_ge n (2 ^ 52) with hsmall | hlarge
    · obtain rfl : k = 0 := by omega
      refine ⟨n, -1074, ?_, rfl, id⟩
      rw [Nat.zero_mul, Nat.zero_add, if_pos (Nat.div_eq_of_lt hsmall)]
    · have hfield : (k * 2 ^ 52 + n) / 2 ^ 52 = k + 1 := by omega
      have hrest : 2 ^ 52 + (k * 2 ^ 52 + n) % 2 ^ 52 = n := by omega
      have hexponent : ((k + 1 : ℕ) : ℤ) - 1075 = k - 1074 := by omega
      refine ⟨n, k - 1074, ?_, rfl, id⟩
      rw [hfield, hrest, if_neg (Nat.succ_ne_zero k), hexponent]
  · have hfield : (k * 2 ^ 52 + 2 ^ 53) / 2 ^ 52 = k + 2 := by omega
    have hrest : 2 ^ 52 + (k * 2 ^ 52 + 2 ^ 53) % 2 ^ 52 = 2 ^ 52 := by omega
    have hexponent : ((k + 2 : ℕ) : ℤ) - 1075 = k - 1073 := by omega
    refine ⟨2 ^ 52, k - 1073, ?_, ?_, fun _ => ⟨2 ^ 51, by norm_num⟩⟩
    · rw [hfield, hrest, if_neg (by omega), hexponent]
    · have hstep : (k : ℤ) - 1073 = 1 + (k - 1074) := by ring
      rw [hstep, zpow_add₀ (by norm_num)]
      push_cast
      ring

end Fields

section Fraction

variable {num den : ℕ} {q : ℚ}

lemma zpow_eq_div {b : ℚ} (hb : b ≠ 0) (e : ℤ) : b ^ e = b ^ e.toNat / b ^ (-e).toNat := by
  rw [← zpow_natCast, ← zpow_natCast, ← zpow_sub₀ hb]
  congr 1
  omega

lemma leadingExponent_spec (hnum : 0 < num) (hden : 0 < den) :
    (2 : ℚ) ^ leadingExponent num den ≤ num / den ∧ (num : ℚ) / den < 2 ^ (leadingExponent num den + 1) := by
  have hden' : (0 : ℚ) < den := Nat.cast_pos.mpr hden
  have htwo : (2 : ℚ) ≠ 0 := two_ne_zero
  have hnumlow : (2 : ℚ) ^ (num.log2 : ℤ) ≤ num := by exact_mod_cast Nat.log2_self_le hnum.ne'
  have hnumhigh : (num : ℚ) < 2 ^ ((num.log2 : ℤ) + 1) := by exact_mod_cast Nat.lt_log2_self (n := num)
  have hdenlow : (2 : ℚ) ^ (den.log2 : ℤ) ≤ den := by exact_mod_cast Nat.log2_self_le hden.ne'
  have hdenhigh : (den : ℚ) < 2 ^ ((den.log2 : ℤ) + 1) := by exact_mod_cast Nat.lt_log2_self (n := den)
  have hcompare (e : ℤ) : num * 2 ^ (-e).toNat < den * 2 ^ e.toNat ↔ (num : ℚ) / den < 2 ^ e := by
    rw [zpow_eq_div htwo, div_lt_div_iff₀ hden' (by positivity), mul_comm ((2 : ℚ) ^ e.toNat)]
    exact_mod_cast Iff.rfl
  unfold leadingExponent
  set e : ℤ := num.log2 - den.log2 with he
  dsimp only
  split
  · next hless =>
    rw [hcompare] at hless
    rw [sub_add_cancel]
    refine ⟨?_, hless⟩
    rw [le_div_iff₀ hden']
    calc (2 : ℚ) ^ (e - 1) * den ≤ 2 ^ (e - 1) * 2 ^ ((den.log2 : ℤ) + 1) := by gcongr
      _ = 2 ^ (num.log2 : ℤ) := by
          rw [← zpow_add₀ htwo, he]
          congr 1
          ring
      _ ≤ num := hnumlow
  · next hge =>
    rw [hcompare, not_lt] at hge
    refine ⟨hge, ?_⟩
    rw [div_lt_iff₀ hden']
    calc (num : ℚ) < 2 ^ ((num.log2 : ℤ) + 1) := hnumhigh
      _ = 2 ^ (e + 1) * 2 ^ (den.log2 : ℤ) := by
          rw [← zpow_add₀ htwo, he]
          congr 1
          ring
      _ ≤ 2 ^ (e + 1) * den := by gcongr

lemma isNearest_roundDiv_zpow (num : ℕ) (hden : 0 < den) (e : ℤ) :
    IsNearest (num / den / 2 ^ e) (roundDiv (num * 2 ^ (-e).toNat) (den * 2 ^ e.toNat)) := by
  have hnear := roundDiv_isNearest (num * 2 ^ (-e).toNat) (Nat.mul_pos hden (Nat.two_pow_pos e.toNat))
  have hvalue : ((num * 2 ^ (-e).toNat : ℕ) : ℚ) / ((den * 2 ^ e.toNat : ℕ) : ℚ) = num / den / 2 ^ e := by
    rw [zpow_eq_div two_ne_zero e]
    push_cast
    field_simp
  rwa [hvalue] at hnear

lemma isClosest_zero (negative : Bool) (hq : |q| ≤ 1 / 2 * 2 ^ (-1074 : ℤ)) :
    IsClosest (signed negative q) (ofMagnitudeBits negative 0) := by
  have hvalue : value (ofMagnitudeBits negative 0) = .finite negative 0 (-1074) :=
    value_ofMagnitudeBits (by decide) negative
  have hpos : (0 : ℚ) < 2 ^ (-1074 : ℤ) := zpow_pos two_pos _
  have hnear : IsNearest (q / 2 ^ (-1074 : ℤ)) (0 : ℕ) := by
    refine ⟨?_, fun _ => Even.zero⟩
    rw [Nat.cast_zero, Int.cast_zero, sub_zero, abs_div, abs_of_pos hpos, div_le_iff₀ hpos]
    exact hq
  refine isClosest_of_isNearest hvalue ?_ id le_rfl hnear fun h => absurd h (lt_irrefl _)
  rw [Nat.cast_zero]

/-- A unit that counts a number with fifty-three digits, or with fewer where there is none below it. -/
structure IsScale (q : ℚ) (e : ℤ) : Prop where
  ge : -1074 ≤ e
  lt : q < 2 ^ (53 + e)
  le : -1074 < e → 2 ^ (52 + e) ≤ q

lemma isScale_unitExponent (hnum : 0 < num) (hden : 0 < den) :
    IsScale (num / den) (unitExponent num den) := by
  obtain ⟨hlow, hhigh⟩ := leadingExponent_spec hnum hden
  have hunit : leadingExponent num den - 52 ≤ unitExponent num den := le_max_left _ _
  refine ⟨le_max_right _ _, ?_, fun h => ?_⟩
  · exact hhigh.trans_le (zpow_le_zpow_right₀ one_le_two (by omega))
  · have hexact : 52 + unitExponent num den = leadingExponent num den := by
      unfold unitExponent at h ⊢
      omega
    rw [hexact]
    exact hlow

section Scale

variable {e : ℤ} {n : ℕ} (h : IsScale q e) (hnear : IsNearest (q / 2 ^ e) n)

include hnear

lemma le_of_le_mul {m : ℕ} (hq : q ≤ m * 2 ^ e) : n ≤ m := by
  have hle : q / 2 ^ e ≤ ((m : ℤ) : ℚ) := by
    rw [div_le_iff₀ (zpow_pos two_pos e), Int.cast_natCast]
    exact hq
  exact_mod_cast hnear.mono (isNearest_self m) hle

lemma le_of_mul_le {m : ℕ} (hq : m * 2 ^ e ≤ q) : m ≤ n := by
  have hle : ((m : ℤ) : ℚ) ≤ q / 2 ^ e := by
    rw [le_div_iff₀ (zpow_pos two_pos e), Int.cast_natCast]
    exact hq
  exact_mod_cast (isNearest_self m).mono hnear hle

include h

lemma IsScale.nearest_le : n ≤ 2 ^ 53 := by
  apply le_of_le_mul hnear
  rw [Nat.cast_pow, Nat.cast_ofNat, ← zpow_natCast, ← zpow_add₀ two_ne_zero]
  exact h.lt.le

lemma IsScale.le_nearest (he : -1074 < e) : 2 ^ 52 ≤ n := by
  apply le_of_mul_le hnear
  rw [Nat.cast_pow, Nat.cast_ofNat, ← zpow_natCast, ← zpow_add₀ two_ne_zero]
  exact h.le he

lemma IsScale.fits (hq : q ≤ largest) : (e + 1074).toNat * 2 ^ 52 + n < infinityBits := by
  have hle := h.nearest_le hnear
  unfold infinityBits
  rcases le_or_gt e 970 with hsmall | hbig
  · omega
  · have hplace : e = 971 := by
      have hlt := (h.le (by omega)).trans_lt (hq.trans_lt largest_lt)
      have := (zpow_lt_zpow_iff_right₀ one_lt_two).mp hlt
      omega
    have hfull : n ≤ 2 ^ 53 - 1 := by
      apply le_of_le_mul hnear
      rw [hplace, ← cast_largest]
      exact hq
    omega

end Scale

theorem isClosest_ofFraction (negative : Bool) (hden : 0 < den) (hle : (num : ℚ) / den ≤ largest) :
    IsClosest (signed negative (num / den)) (ofFraction negative num den) := by
  rcases Nat.eq_zero_or_pos num with rfl | hnum
  · have hbits : magnitudeBits 0 den = 0 := if_pos rfl
    rw [ofFraction, hbits]
    apply isClosest_zero
    rw [Nat.cast_zero, zero_div, abs_zero]
    positivity
  · have hscale := isScale_unitExponent hnum hden
    have hnear := isNearest_roundDiv_zpow num hden (unitExponent num den)
    have hfits := hscale.fits hnear hle
    have hdigits : unitExponent num den = -1074 ∨ 2 ^ 52 ≤
        roundDiv (num * 2 ^ (-unitExponent num den).toNat) (den * 2 ^ (unitExponent num den).toNat) :=
      hscale.ge.eq_or_lt.imp Eq.symm (hscale.le_nearest hnear)
    obtain ⟨m, f, hvalue, hsame, heven⟩ :=
      exists_value_ofMagnitudeBits hscale.ge (hscale.nearest_le hnear) hdigits hfits negative
    have hbits : magnitudeBits num den = _ := (if_neg hnum.ne').trans (min_eq_left hfits.le)
    rw [ofFraction, hbits]
    exact isClosest_of_isNearest hvalue hsame heven hscale.ge hnear hscale.le

end Fraction

section Digits

variable {n : ℕ} {e : ℤ}

lemma toDigits_bounds (hn : n ≠ 0) :
    (10 : ℚ) ^ (((Nat.toDigits 10 n).length : ℤ) - 1) ≤ n ∧ (n : ℚ) < 10 ^ ((Nat.toDigits 10 n).length : ℤ) := by
  have hpos : 0 < (Nat.toDigits 10 n).length := Nat.length_toDigits_pos
  have hhigh := (Nat.length_toDigits_le_iff (by decide) hpos).mp (le_refl (Nat.toDigits 10 n).length)
  obtain ⟨k, hk⟩ := Nat.exists_eq_succ_of_ne_zero hpos.ne'
  rw [hk] at hhigh ⊢
  have hlow : 10 ^ k ≤ n := by
    rcases Nat.eq_zero_or_pos k with rfl | hkpos
    · exact Nat.one_le_iff_ne_zero.mpr hn
    · by_contra hlt
      have := (Nat.length_toDigits_le_iff (by decide) hkpos).mpr (not_le.mp hlt)
      omega
  rw [Nat.cast_succ, add_sub_cancel_right, ← Nat.cast_succ, zpow_natCast, zpow_natCast]
  exact ⟨by exact_mod_cast hlow, by exact_mod_cast hhigh⟩

lemma largest_lt_ten : (largest : ℚ) < 10 ^ (310 : ℤ) := by
  have hnat : largest < 10 ^ 310 := by decide +kernel
  exact_mod_cast hnat

lemma ten_lt_unit : (10 : ℚ) ^ (-331 : ℤ) ≤ 1 / 2 * 2 ^ (-1074 : ℤ) := by
  have hnat : 2 * 2 ^ 1074 ≤ 10 ^ 331 := by decide +kernel
  have hrat : (2 : ℚ) * 2 ^ 1074 ≤ 10 ^ 331 := by exact_mod_cast hnat
  rw [zpow_neg, zpow_neg, one_div, ← mul_inv]
  exact inv_anti₀ (by positivity) (by exact_mod_cast hrat)

/-- Digits are read as the closest double, however far the point is. -/
theorem isClosest_ofDecimal (negative : Bool) (hle : n * (10 : ℚ) ^ e ≤ largest) :
    IsClosest (signed negative (n * 10 ^ e)) (ofDecimal negative n e) := by
  have hten : (10 : ℚ) ≠ 0 := by norm_num
  have hpos : (0 : ℚ) < 10 ^ e := zpow_pos (by norm_num) e
  unfold ofDecimal
  split
  · next hzero =>
    apply isClosest_zero
    rw [hzero, Nat.cast_zero, zero_mul, abs_zero]
    positivity
  · next hn =>
    obtain ⟨hlow, hhigh⟩ := toDigits_bounds hn
    dsimp only
    split
    · next hbig =>
      exfalso
      refine absurd hle (not_le.mpr (largest_lt_ten.trans_le ?_))
      calc (10 : ℚ) ^ (310 : ℤ) ≤ 10 ^ (((Nat.toDigits 10 n).length : ℤ) - 1 + e) :=
            zpow_le_zpow_right₀ (by norm_num) (by omega)
        _ = 10 ^ (((Nat.toDigits 10 n).length : ℤ) - 1) * 10 ^ e := zpow_add₀ hten _ _
        _ ≤ n * 10 ^ e := mul_le_mul_of_nonneg_right hlow hpos.le
    · split
      · next hsmall =>
        apply isClosest_zero
        rw [abs_of_nonneg (by positivity)]
        calc n * (10 : ℚ) ^ e ≤ 10 ^ ((Nat.toDigits 10 n).length : ℤ) * 10 ^ e :=
              mul_le_mul_of_nonneg_right hhigh.le hpos.le
          _ = 10 ^ (((Nat.toDigits 10 n).length : ℤ) + e) := (zpow_add₀ hten _ _).symm
          _ ≤ 10 ^ (-331 : ℤ) := zpow_le_zpow_right₀ (by norm_num) (by omega)
          _ ≤ 1 / 2 * 2 ^ (-1074 : ℤ) := ten_lt_unit
      · have hvalue : n * (10 : ℚ) ^ e = (n * 10 ^ e.toNat : ℕ) / (10 ^ (-e).toNat : ℕ) := by
          rw [zpow_eq_div hten e, Nat.cast_mul, Nat.cast_pow, Nat.cast_pow, Nat.cast_ofNat, mul_div_assoc]
        rw [hvalue] at hle ⊢
        exact isClosest_ofFraction negative (Nat.pow_pos (by decide)) hle

end Digits

end Binary64

end Lindenmayer
