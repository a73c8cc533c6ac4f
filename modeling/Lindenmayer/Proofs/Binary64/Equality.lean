import Lindenmayer.Proofs.Decimal.Canonical

/-! Doubles that compare equal are those that are the same number. One has a single double, but for zero,
which has two. -/

namespace Lindenmayer.Binary64

open Float.Model (UnpackedFloat)
open Float.Model.UnpackedFloat

/-- The two are one number, or both lie beyond all numbers on one side. -/
def SameNumber (x y : Float) : Prop :=
  (∃ q, rational? x = some q ∧ rational? y = some q) ∨
    ∃ negative, value x = .infinite negative ∧ value y = .infinite negative

namespace SameNumber

variable {x y z : Float}

lemma symm (h : SameNumber x y) : SameNumber y x :=
  h.imp (fun ⟨q, hx, hy⟩ => ⟨q, hy, hx⟩) fun ⟨negative, hx, hy⟩ => ⟨negative, hy, hx⟩

lemma trans (h : SameNumber x y) (h' : SameNumber y z) : SameNumber x z := by
  rcases h with ⟨q, hx, hy⟩ | ⟨negative, hx, hy⟩
  · rcases h' with ⟨r, hy', hz⟩ | ⟨negative, hy', -⟩
    · exact .inl ⟨q, hx, (hy.symm.trans hy') ▸ hz⟩
    · rw [rational?, hy'] at hy
      cases hy
  · rcases h' with ⟨r, hy', -⟩ | ⟨negative', hy', hz⟩
    · rw [rational?, hy] at hy'
      cases hy'
    · exact .inr ⟨negative, hx, (hy.symm.trans hy') ▸ hz⟩

end SameNumber

lemma magnitude_inj {m n : ℕ} {e f : ℤ} (hm : m < 2 ^ 53) (he : -1074 ≤ e)
    (hm' : 2 ^ 52 ≤ m ∨ e = -1074) (hn : n < 2 ^ 53) (hf : -1074 ≤ f) (hn' : 2 ^ 52 ≤ n ∨ f = -1074)
    (h : m * 2 ^ (e + 1074).toNat = n * 2 ^ (f + 1074).toNat) : e = f ∧ m = n := by
  rcases lt_trichotomy e f with hlt | rfl | hlt
  · have hupper := magnitude_lt hm he hlt
    have hlower := le_magnitude (hn'.resolve_right (by omega)) hf
    omega
  · exact ⟨rfl, Nat.eq_of_mul_eq_mul_right (Nat.two_pow_pos _) h⟩
  · have hupper := magnitude_lt hn hf hlt
    have hlower := le_magnitude (hm'.resolve_right (by omega)) he
    omega

lemma Settled.rank_eq_of_units_eq {u v : UnpackedFloat} (hu : Settled u) (hv : Settled v)
    (h : units u = units v) : rank u = rank v := by
  have htop := overflow_pos
  cases u with
  | infinity s =>
    cases v with
    | infinity t => cases s <;> cases t <;> simp only [rank, units, Sign.apply] at h ⊢ <;> omega
    | notANumber | zero => cases s <;> simp only [units, Sign.apply] at h <;> omega
    | finite t n f hn =>
      have hlt := hv.magnitude_lt
      cases s <;> cases t <;> simp only [units, Sign.apply] at h <;> omega
  | notANumber | zero =>
    cases v with
    | infinity t => cases t <;> simp only [units, Sign.apply] at h <;> omega
    | notANumber | zero => rfl
    | finite t n f hn =>
      have hpos : 0 < n * 2 ^ (f + 1074).toNat := Nat.mul_pos hn (Nat.two_pow_pos _)
      cases t <;> simp only [units, Sign.apply] at h <;> omega
  | finite s m e hm =>
    have hlt := hu.magnitude_lt
    have hpos : 0 < m * 2 ^ (e + 1074).toNat := Nat.mul_pos hm (Nat.two_pow_pos _)
    cases v with
    | infinity t => cases s <;> cases t <;> simp only [units, Sign.apply] at h <;> omega
    | notANumber | zero => cases s <;> simp only [units, Sign.apply] at h <;> omega
    | finite t n f hn =>
      obtain ⟨hmlt, hmge, hmdigits⟩ := hu.canonical
      obtain ⟨hnlt, hnge, hndigits⟩ := hv.canonical
      have hpos' : 0 < n * 2 ^ (f + 1074).toNat := Nat.mul_pos hn (Nat.two_pow_pos _)
      have hmagnitude : m * 2 ^ (e + 1074).toNat = n * 2 ^ (f + 1074).toNat := by
        cases s <;> cases t <;> simp only [units, Sign.apply] at h <;> omega
      obtain ⟨rfl, rfl⟩ := magnitude_inj hmlt hmge hmdigits hnlt hnge hndigits hmagnitude
      cases s <;> cases t <;> simp only [rank, units, Sign.apply] at h ⊢ <;> omega

variable {x y : Float}

lemma beq_iff_unitsOf (hx : x.isNaN = false) (hy : y.isNaN = false) :
    (x == y) = true ↔ unitsOf x = unitsOf y := by
  obtain ⟨o, ho, hlt, hgt⟩ := compare_eq_some hx hy
  have hcompare : (x == y) = true ↔ o = .eq := by
    change (x.toModel.unpack.compare y.toModel.unpack == some .eq) = true ↔ _
    rw [ho, beq_iff_eq, Option.some_inj]
  rw [hcompare]
  constructor
  · rintro rfl
    have hle : ¬ rank x.toModel.unpack < rank y.toModel.unpack := fun h => nomatch hlt.mpr h
    have hge : ¬ rank y.toModel.unpack < rank x.toModel.unpack := fun h => nomatch hgt.mpr h
    exact le_antisymm ((settled_unpack x).units_mono (settled_unpack y) (not_lt.mp hge))
      ((settled_unpack y).units_mono (settled_unpack x) (not_lt.mp hle))
  · intro h
    have hrank := (settled_unpack x).rank_eq_of_units_eq (settled_unpack y) h
    cases o with
    | eq => rfl
    | lt => exact absurd (hlt.mp rfl) hrank.not_lt
    | gt => exact absurd (hgt.mp rfl) hrank.not_gt

lemma unitsOf_of_infinite {negative : Bool} (h : value x = .infinite negative) :
    unitsOf x = if negative then -(overflow : ℤ) else overflow := by
  rw [value_eq_valueOf] at h
  rw [unitsOf]
  cases hx : x.toModel.unpack with
  | infinity s =>
    rw [hx] at h
    cases s <;> cases h <;> rfl
  | notANumber | zero | finite =>
    rw [hx] at h
    cases h

lemma infinite_of_not_finite (hx : x.isNaN = false) (h : x.isFinite ≠ true) :
    ∃ negative, value x = .infinite negative := by
  cases hvalue : value x with
  | nan => exact absurd (hx.symm.trans ((isNaN_iff_value x).mpr hvalue)) Bool.false_ne_true
  | infinite negative => exact ⟨negative, rfl⟩
  | finite negative mantissa exponent =>
    refine absurd ((isFinite_iff x).mpr ?_) h
    rw [rational?, hvalue]
    exact ⟨_, rfl⟩

lemma SameNumber.refl (hx : x.isNaN = false) : SameNumber x x := by
  by_cases h : x.isFinite = true
  · exact .inl ⟨_, rational?_eq h, rational?_eq h⟩
  · obtain ⟨negative, hvalue⟩ := infinite_of_not_finite hx h
    exact .inr ⟨negative, hvalue, hvalue⟩

lemma beq_iff_sameNumber (hx : x.isNaN = false) (hy : y.isNaN = false) :
    (x == y) = true ↔ SameNumber x y := by
  have htop := overflow_pos
  rw [beq_iff_unitsOf hx hy]
  constructor
  · intro h
    have hfinite : x.isFinite = true ↔ y.isFinite = true := by
      rw [← abs_unitsOf_lt_iff hx, ← abs_unitsOf_lt_iff hy, h]
    by_cases hx' : x.isFinite = true
    · exact .inl ⟨_, rational?_eq hx', h ▸ rational?_eq (hfinite.mp hx')⟩
    · obtain ⟨s, hs⟩ := infinite_of_not_finite hx hx'
      obtain ⟨t, ht⟩ := infinite_of_not_finite hy (mt hfinite.mpr hx')
      rw [unitsOf_of_infinite hs, unitsOf_of_infinite ht] at h
      have hst : s = t := by
        cases s <;> cases t <;> simp only [if_true, Bool.false_eq_true, if_false] at h <;>
          first | rfl | omega
      exact .inr ⟨s, hs, hst ▸ ht⟩
  · rintro (⟨q, hqx, hqy⟩ | ⟨negative, hinfx, hinfy⟩)
    · rw [rational?_eq ((isFinite_iff x).mpr ⟨q, hqx⟩)] at hqx
      rw [rational?_eq ((isFinite_iff y).mpr ⟨q, hqy⟩), ← hqx, Option.some_inj,
        div_left_inj' (pow_ne_zero 1074 two_ne_zero)] at hqy
      exact_mod_cast hqy.symm
    · rw [unitsOf_of_infinite hinfx, unitsOf_of_infinite hinfy]

end Lindenmayer.Binary64
