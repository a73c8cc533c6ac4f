import Lindenmayer.Proofs.Binary64.Circular
import Mathlib.RingTheory.Coprime.Lemmas

/-! The cosine of a coarse heading is not zero. A heading that is a multiple of `2 ^ -52` keeps away from
all quarter turns, for a fraction that is close to a quarter turn leaves no room for a closer one with a
smaller denominator; so the sine of what is left has digits among those that are kept. -/

namespace Lindenmayer.Binary64

/-- If `p / q` is close to `a / w`, then no fraction with a smaller denominator is closer by far. -/
lemma le_abs_of_approximation {a w p q k m g : ℤ} (hcoprime : IsCoprime p q) (hk : 0 < k) (hkq : k < q)
    (hroom : q * |q * a - p * w| + q * g ≤ w) : g ≤ |k * a - m * w| := by
  by_contra hlt
  have hne : k * p - m * q ≠ 0 := by
    intro heq
    have hdvd : q ∣ k * p := ⟨m, by linarith⟩
    exact not_le.mpr hkq (Int.le_of_dvd hk (hcoprime.symm.dvd_of_dvd_mul_right hdvd))
  have hsplit : (k * p - m * q) * w = q * (k * a - m * w) - k * (q * a - p * w) := by ring
  have hnear : q * |k * a - m * w| < q * g := mul_lt_mul_of_pos_left (not_le.mp hlt) (hk.trans hkq)
  have hsmall : k * |q * a - p * w| ≤ q * |q * a - p * w| :=
    mul_le_mul_of_nonneg_right hkq.le (abs_nonneg _)
  have hwhole : |w| ≤ |(k * p - m * q) * w| := by
    rw [abs_mul]
    exact le_mul_of_one_le_left (abs_nonneg w) (Int.one_le_abs hne)
  have hbound : |(k * p - m * q) * w| ≤ q * |k * a - m * w| + k * |q * a - p * w| := by
    rw [hsplit]
    refine (abs_sub _ _).trans_eq ?_
    rw [abs_mul, abs_mul, abs_of_pos (hk.trans hkq), abs_of_pos hk]
  have := le_abs_self w
  omega

/-- The place of the last digit of coarse headings, in units. -/
def coarsePlace : ℕ := 1022

def gridPlaces : ℕ := coarsePlace + (turnPlaces - 1074)

/-- With the denominator below it, a convergent of a quarter turn in coarse places. No coarse heading has
as many quarter turns as the denominator. -/
def turnNumerator : ℤ := 177799690807804113093696714297947144159

def turnDenominator : ℤ := 25133406176067873848172

lemma turn_coprime : IsCoprime turnNumerator turnDenominator := by
  rw [Int.isCoprime_iff_gcd_eq_one]
  decide +kernel

lemma turn_room : turnDenominator *
      (turnDenominator * quarterTurn - turnNumerator * 2 ^ gridPlaces).natAbs +
    turnDenominator * 2 ^ (turnPlaces - places) ≤ 2 ^ gridPlaces := by
  decide +kernel

lemma roam_turn : roam * 2 ^ (turnPlaces - 1074) + quarterTurn / 2 < 2 ^ 70 * quarterTurn := by
  decide +kernel

/-- A heading whose last digit stands at the coarse place, or before it, and that is no roam away. -/
structure Coarse (x : Float) : Prop where
  within : Within roam x
  dvd : (2 : ℤ) ^ coarsePlace ∣ unitsOf x

section Reduce

variable {mantissa : ℕ} {exponent : ℤ} (hge : -1074 ≤ exponent)

include hge

lemma reduced_eq :
    mantissa * 2 ^ (exponent + turnPlaces).toNat =
      mantissa * 2 ^ (exponent + 1074).toNat * 2 ^ (turnPlaces - 1074) := by
  have hexponent : (exponent + turnPlaces).toNat = (exponent + 1074).toNat + (turnPlaces - 1074) := by
    unfold turnPlaces
    omega
  rw [hexponent, Nat.pow_add, Nat.mul_assoc]

variable (hle : mantissa * 2 ^ (exponent + 1074).toNat ≤ roam)

include hle

lemma fst_reduce_lt : ((reduce mantissa exponent).1 : ℤ) < turnDenominator := by
  have hturn := roam_turn
  have hpower : ((2 ^ 70 : ℕ) : ℤ) ≤ turnDenominator := by decide
  have hlt : (reduce mantissa exponent).1 < 2 ^ 70 := by
    unfold reduce
    have hscaled := Nat.mul_le_mul_right (2 ^ (turnPlaces - 1074)) hle
    rw [reduced_eq hge, Nat.div_lt_iff_lt_mul quarterTurn_pos]
    omega
  omega

/-- A coarse heading that is turned back by a quarter turn or more is not turned back to zero. -/
lemma le_snd_reduce (hdvd : 2 ^ coarsePlace ∣ mantissa * 2 ^ (exponent + 1074).toNat)
    (hk : (reduce mantissa exponent).1 ≠ 0) :
    2 ^ (turnPlaces - places) ≤ (reduce mantissa exponent).2.natAbs := by
  obtain ⟨m, hm⟩ := hdvd
  have hsnd : (reduce mantissa exponent).2 =
      -((reduce mantissa exponent).1 * quarterTurn - (m : ℤ) * 2 ^ gridPlaces) := by
    have hgrid : mantissa * 2 ^ (exponent + turnPlaces).toNat = m * 2 ^ gridPlaces := by
      unfold gridPlaces
      rw [reduced_eq hge, hm, pow_add, mul_comm _ m, mul_assoc]
    simp only [reduce, hgrid]
    push_cast
    ring
  have hlt := fst_reduce_lt hge hle
  have hroom := turn_room
  rw [← Int.abs_eq_natAbs] at hroom
  have hfar := le_abs_of_approximation (m := m) turn_coprime
    (Int.natCast_pos.mpr (Nat.pos_of_ne_zero hk)) hlt hroom
  rw [hsnd, Int.natAbs_neg]
  zify
  exact hfar

end Reduce

lemma le_two_mul_fst_circularSeries {r n : ℕ} (hr : r ≤ 2 ^ places) (hn : 0 < n) (terms term : ℕ)
    (hterms : terms ≠ 0) : term ≤ 2 * (circularSeries r terms n term).1 := by
  obtain ⟨terms, rfl⟩ := Nat.exists_eq_succ_of_ne_zero hterms
  have hrest : (circularSeries r terms (n + 1) (term * r / 2 ^ places / n)).2 ≤ term / 2 :=
    calc (circularSeries r terms (n + 1) (term * r / 2 ^ places / n)).2
        ≤ term * r / 2 ^ places / n / (n + 1) := snd_circularSeries_le hr _ _ _
      _ ≤ term * r / 2 ^ places / (n + 1) := Nat.div_le_div_right (Nat.div_le_self _ _)
      _ ≤ term * r / 2 ^ places / 2 := Nat.div_le_div_left (by omega) (by decide)
      _ ≤ term * 2 ^ places / 2 ^ places / 2 :=
          Nat.div_le_div_right (Nat.div_le_div_right (Nat.mul_le_mul_left term hr))
      _ = term / 2 := by rw [Nat.mul_div_cancel _ (Nat.two_pow_pos places)]
  rw [circularSeries]
  dsimp only
  omega

lemma fst_circularSeries_ne_zero {r : ℕ} (hr : r ≤ 2 ^ places) :
    (circularSeries r 40 1 (2 ^ places)).1 ≠ 0 := by
  have hle := le_two_mul_fst_circularSeries hr Nat.one_pos 40 (2 ^ places) (by decide)
  have := Nat.two_pow_pos places
  omega

lemma snd_circularSeries_ne_zero {r : ℕ} (hr : r ≤ 2 ^ places) (hpos : r ≠ 0) :
    (circularSeries r 40 1 (2 ^ places)).2 ≠ 0 := by
  have hle := le_two_mul_fst_circularSeries hr Nat.two_pos 39 r (by decide)
  have hfirst : 2 ^ places * r / 2 ^ places / 1 = r := by
    rw [Nat.div_one, Nat.mul_div_cancel_left _ (Nat.two_pow_pos places)]
  change (circularSeries r 39 2 (2 ^ places * r / 2 ^ places / 1)).1 ≠ 0
  rw [hfirst]
  omega

lemma unitsOf_ofPlaces_ne_zero {n : ℕ} (hn : n ≠ 0) (h : n ≤ 2 ^ places) (negative : Bool) :
    unitsOf (ofPlaces negative n) ≠ 0 := by
  have hlt : n < 2 ^ 201 := h.trans_lt (Nat.pow_lt_pow_right (by decide) (by decide))
  have hfits : magnitudeBits n (2 ^ places) < infinityBits :=
    (magnitudeBits_le_of_lt hlt).trans_lt (by decide)
  refine unitsOf_ofMagnitudeBits_ne_zero hfits negative ?_
  have hunit : 0 < (unitExponent n (2 ^ places) + 1074).toNat := by
    obtain ⟨hlow, -⟩ := leadingExponent_bounds n
    unfold unitExponent
    unfold places at hlow ⊢
    omega
  rw [magnitudeBits, if_neg hn]
  unfold infinityBits
  dsimp only
  omega

lemma unitsOf_fst_circular_ne_zero {mantissa : ℕ} {exponent : ℤ} (hge : -1074 ≤ exponent)
    (hle : mantissa * 2 ^ (exponent + 1074).toNat ≤ roam)
    (hdvd : 2 ^ coarsePlace ∣ mantissa * 2 ^ (exponent + 1074).toNat) (negative : Bool) :
    unitsOf (circular negative mantissa exponent).1 ≠ 0 := by
  have hfar := le_snd_reduce hge hle hdvd
  have hr := reduce_le mantissa exponent
  unfold circular
  generalize reduce mantissa exponent = reduced at *
  obtain ⟨k, r⟩ := reduced
  simp only at hr hfar ⊢
  have hc := fst_circularSeries_le (r.natAbs / 2 ^ (turnPlaces - places)) 40 1 (2 ^ places)
  have hs := snd_circularSeries_le hr 40 1 (2 ^ places)
  rw [Nat.div_one] at hs
  have hcos := fst_circularSeries_ne_zero hr
  have hsin (hk : k ≠ 0) := snd_circularSeries_ne_zero hr
    (Nat.div_pos (hfar hk) (Nat.two_pow_pos _)).ne'
  generalize circularSeries (r.natAbs / 2 ^ (turnPlaces - places)) 40 1 (2 ^ places) = sums at *
  split
  · exact unitsOf_ofPlaces_ne_zero hcos hc _
  · next hone => exact unitsOf_ofPlaces_ne_zero (hsin (by rintro rfl; cases hone)) hs _
  · exact unitsOf_ofPlaces_ne_zero hcos hc _
  · next hzero _ _ => exact unitsOf_ofPlaces_ne_zero (hsin (by rintro rfl; exact hzero rfl)) hs _

/-- No coarse heading is straight up or straight down. -/
theorem unitsOf_cos_ne_zero {x : Float} {d : Float × Float} (hx : Coarse x) (h : cosSin x = some d) :
    unitsOf d.1 ≠ 0 := by
  unfold cosSin at h
  split at h
  · next hvalue =>
    have hnumber := isNaN_of_isFinite hx.within.isFinite
    exact absurd (hnumber.symm.trans ((isNaN_iff_value x).mpr hvalue)) Bool.false_ne_true
  · cases h
  · next negative mantissa exponent hvalue =>
    obtain ⟨hge, hunits⟩ := natAbs_unitsOf hvalue
    obtain rfl := Option.some.inj h
    split
    · rw [unitsOf_one]
      exact pow_ne_zero _ (by decide)
    · have hle := hx.within.abs_le
      rw [Int.abs_eq_natAbs, hunits, Nat.cast_le] at hle
      have hdvd : 2 ^ coarsePlace ∣ (unitsOf x).natAbs := by
        rw [← Int.natCast_dvd, Nat.cast_pow]
        exact hx.dvd
      rw [hunits] at hdvd
      exact unitsOf_fst_circular_ne_zero hge hle hdvd negative

end Lindenmayer.Binary64
