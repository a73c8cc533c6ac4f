import Lindenmayer.Binary64.Circular
import Lindenmayer.Proofs.Binary64.Magnitude

/-! The cosine and the sine of a double that is a number are paces: finite, and so short that no number
of them leads out of a roam. -/

namespace Lindenmayer.Binary64

open Decimal (roundDiv)

def pacePlace : ℕ := 1085

/-- The longest pace, in units. -/
def pace : ℕ := 2 ^ pacePlace

/-- As far as paces lead, in units. -/
def roam : ℕ := 2 ^ (pacePlace + 53)

lemma roam_lt_overflow : roam < overflow := Nat.pow_lt_pow_right (by decide) (by decide)

lemma nearest_roam : nearest 0 (roam + pace) = roam := by
  decide +kernel

lemma Within.add_pace {x y : Float} (hx : Within roam x) (hy : Within pace y) : Within roam (x + y) :=
  hx.add hy roam_lt_overflow nearest_roam

lemma Within.sub_pace {x y : Float} (hx : Within roam x) (hy : Within pace y) : Within roam (x - y) :=
  hx.sub hy roam_lt_overflow nearest_roam

lemma isFinite_sub_of_roam {x y : Float} (hx : Within roam x) (hy : Within roam y) :
    (x - y).isFinite = true := by
  have hstay : nearest 0 ((roam + roam : ℕ) + (0 : ℕ)) = (roam + roam : ℕ) := by decide +kernel
  have hfits : roam + roam < overflow := by decide +kernel
  obtain ⟨hnumber, hdifference⟩ := unitsOf_sub hx.isFinite hy.isFinite
  have habs : |unitsOf x - unitsOf y| ≤ (roam + roam : ℕ) + (0 : ℕ) := by
    push_cast
    rw [add_zero]
    exact (abs_sub _ _).trans (add_le_add hx.abs_le hy.abs_le)
  rw [← abs_unitsOf_lt_iff hnumber, hdifference]
  exact ((abs_capped_le _).trans (abs_nearest_le hstay habs)).trans_lt (by exact_mod_cast hfits)

lemma leadingExponent_bounds (n : ℕ) :
    (n.log2 : ℤ) - places - 1 ≤ leadingExponent n (2 ^ places) ∧
      leadingExponent n (2 ^ places) ≤ n.log2 - places := by
  unfold leadingExponent
  simp only [Nat.log2_two_pow]
  split <;> omega

lemma magnitudeBits_le_of_lt {n : ℕ} (h : n < 2 ^ 201) :
    magnitudeBits n (2 ^ places) ≤ 1034 * 2 ^ 52 := by
  unfold magnitudeBits
  split
  · exact Nat.zero_le _
  · next hn =>
    have hlog : n.log2 < 201 := (Nat.log2_lt hn).mpr h
    obtain ⟨hlow, hhigh⟩ := leadingExponent_bounds n
    have hunit : unitExponent n (2 ^ places) ≤ -44 := by
      unfold unitExponent
      unfold places at hhigh ⊢
      omega
    have hdigits : n.log2 + 1 + (-unitExponent n (2 ^ places)).toNat ≤ 54 + places := by
      unfold unitExponent at hunit ⊢
      unfold places at *
      omega
    have hden : (unitExponent n (2 ^ places)).toNat = 0 := by omega
    have hnum : n * 2 ^ (-unitExponent n (2 ^ places)).toNat ≤ 2 ^ (54 + places) := by
      apply (Nat.mul_le_mul_right _ Nat.lt_log2_self.le).trans
      rw [← Nat.pow_add]
      exact Nat.pow_le_pow_right (by decide) hdigits
    have hround := roundDiv_le_two_pow hnum
    simp only [hden, Nat.pow_zero, Nat.mul_one]
    apply (min_le_left _ _).trans
    omega

lemma fst_circularSeries_le (r terms n term : ℕ) : (circularSeries r terms n term).1 ≤ term := by
  cases terms with
  | zero => exact Nat.zero_le term
  | succ terms => exact Nat.sub_le term _

lemma snd_circularSeries_le {r : ℕ} (hr : r ≤ 2 ^ places) (terms n term : ℕ) :
    (circularSeries r terms n term).2 ≤ term / n := by
  cases terms with
  | zero => exact Nat.zero_le _
  | succ terms =>
    calc (circularSeries r terms (n + 1) (term * r / 2 ^ places / n)).1
        ≤ term * r / 2 ^ places / n := fst_circularSeries_le _ _ _ _
      _ ≤ term * 2 ^ places / 2 ^ places / n :=
          Nat.div_le_div_right (Nat.div_le_div_right (Nat.mul_le_mul_left term hr))
      _ = term / n := by rw [Nat.mul_div_cancel _ (Nat.two_pow_pos places)]

lemma within_ofPlaces {n : ℕ} (h : n ≤ 2 ^ places) (negative : Bool) :
    Within pace (ofPlaces negative n) := by
  have hlt : n < 2 ^ 201 := h.trans_lt (Nat.pow_lt_pow_right (by decide) (by decide))
  exact within_ofMagnitudeBits negative (by decide) (by decide) (magnitudeBits_le_of_lt hlt)

lemma quarterTurn_bounds : 2 ^ turnPlaces ≤ quarterTurn ∧ quarterTurn ≤ 2 * 2 ^ turnPlaces := by
  decide +kernel

lemma quarterTurn_pos : 0 < quarterTurn := (Nat.two_pow_pos turnPlaces).trans_le quarterTurn_bounds.1

/-- A heading is reduced to half a quarter turn at most. -/
lemma natAbs_reduce_le (mantissa : ℕ) (exponent : ℤ) :
    (reduce mantissa exponent).2.natAbs ≤ quarterTurn / 2 := by
  unfold reduce
  simp only
  generalize mantissa * 2 ^ (exponent + turnPlaces).toNat = x
  have hdivision := Nat.div_add_mod (x + quarterTurn / 2) quarterTurn
  have hlt := Nat.mod_lt (x + quarterTurn / 2) quarterTurn_pos
  rw [Nat.mul_comm] at hdivision
  omega

/-- What is left of a heading, in the places that are kept, is less than one. -/
lemma reduce_le (mantissa : ℕ) (exponent : ℤ) :
    (reduce mantissa exponent).2.natAbs / 2 ^ (turnPlaces - places) ≤ 2 ^ places := by
  have hplaces : turnPlaces - places + places = turnPlaces := rfl
  apply Nat.div_le_of_le_mul
  rw [← Nat.pow_add, hplaces]
  have hr := natAbs_reduce_le mantissa exponent
  have hturn := quarterTurn_bounds.2
  omega

lemma within_circular (negative : Bool) (mantissa : ℕ) (exponent : ℤ) :
    Within pace (circular negative mantissa exponent).1 ∧
      Within pace (circular negative mantissa exponent).2 := by
  unfold circular
  have hr := reduce_le mantissa exponent
  generalize reduce mantissa exponent = reduced at *
  obtain ⟨k, r⟩ := reduced
  simp only at hr ⊢
  have hc := fst_circularSeries_le (r.natAbs / 2 ^ (turnPlaces - places)) 40 1 (2 ^ places)
  have hs := snd_circularSeries_le hr 40 1 (2 ^ places)
  rw [Nat.div_one] at hs
  generalize circularSeries (r.natAbs / 2 ^ (turnPlaces - places)) 40 1 (2 ^ places) = sums at *
  split
  · exact ⟨within_ofPlaces hc _, within_ofPlaces hs _⟩
  · exact ⟨within_ofPlaces hs _, within_ofPlaces hc _⟩
  · exact ⟨within_ofPlaces hc _, within_ofPlaces hs _⟩
  · exact ⟨within_ofPlaces hs _, within_ofPlaces hc _⟩

lemma within_one : Within pace 1 := by
  refine ⟨rfl, ?_⟩
  rw [unitsOf_one]
  decide +kernel

lemma within_of_isSlight {x : Float} {negative : Bool} {mantissa : ℕ} {exponent : ℤ}
    (h : value x = .finite negative mantissa exponent) (hslight : isSlight mantissa exponent = true) :
    Within pace x := by
  obtain ⟨hge, hunits⟩ := natAbs_unitsOf h
  refine ⟨isFinite_of_value h, ?_⟩
  simp only [isSlight, Bool.and_eq_true, decide_eq_true_eq] at hslight
  have hlt : mantissa ≤ 2 ^ exponent.natAbs :=
    (Nat.le_mul_of_pos_right mantissa (Nat.two_pow_pos 27)).trans hslight.2.le
  have hplace : exponent.natAbs + (exponent + 1074).toNat ≤ pacePlace := by
    unfold pacePlace
    omega
  rw [Int.abs_eq_natAbs, hunits, Nat.cast_le]
  calc mantissa * 2 ^ (exponent + 1074).toNat
      ≤ 2 ^ exponent.natAbs * 2 ^ (exponent + 1074).toNat := Nat.mul_le_mul_right _ hlt
    _ ≤ pace := by
        rw [← Nat.pow_add]
        exact Nat.pow_le_pow_right (by decide) hplace

lemma within_cosSin {x : Float} {d : Float × Float} (hx : x.isNaN = false)
    (h : cosSin x = some d) : Within pace d.1 ∧ Within pace d.2 := by
  unfold cosSin at h
  split at h
  · next hvalue => exact absurd (hx.symm.trans ((isNaN_iff_value x).mpr hvalue)) Bool.false_ne_true
  · cases h
  · next negative mantissa exponent hvalue =>
    obtain rfl := Option.some.inj h
    split
    · next hslight => exact ⟨within_one, within_of_isSlight hvalue hslight⟩
    · exact within_circular negative mantissa exponent

end Lindenmayer.Binary64
