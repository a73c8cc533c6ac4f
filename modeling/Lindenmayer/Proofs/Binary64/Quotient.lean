import Lindenmayer.Proofs.Binary64.Arithmetic

/-! Quotients of doubles. Divided by a finite double other than zero, a number stays a number, but it may
become infinite; and an infinite factor leaves no number of a zero. -/

namespace Lindenmayer.Binary64

open Float.Model (UnpackedFloat Format)
open Float.Model.UnpackedFloat

lemma isNaN_ofFields (s : Sign) {e : BitVec 11} (m : BitVec 52) (he : e.toNat ≠ 2047) :
    (ofFields s e m).isNaN = false := by
  have hfull : e ≠ -1#11 := BitVec.toNat_ne.mpr he
  rw [ofFields, if_neg hfull]
  split
  · split <;> rfl
  · rfl

/-- What is packed is a number still, even if it has more digits than are stored. -/
lemma isNaN_pack {u : UnpackedFloat} (hu : u.isNaN = false) :
    (Float.Model.pack u).unpack.isNaN = false := by
  cases u with
  | notANumber => cases hu
  | infinity s =>
    rw [unpack_pack (u := .infinity s) trivial]
    rfl
  | zero s =>
    rw [unpack_pack (u := .zero s) trivial]
    rfl
  | finite s m e hm =>
    change (unpack Format.binary64 (UnpackedFloat.pack Format.binary64 (.finite s m e hm))).isNaN = false
    unfold UnpackedFloat.pack
    dsimp only
    split
    · rw [packedInfinity, unpack_packComponents]
      rfl
    · next hfits =>
      split
      · rw [unpack_packComponents]
        apply isNaN_ofFields
        change ¬ 2 ^ 11 ≤ _ at hfits
        rw [BitVec.toNat_ofNat]
        intro hfull
        have hle := hfull.symm.trans_le (Nat.mod_le _ _)
        omega
      · rw [unpack_packComponents]
        exact isNaN_ofFields s _ (by decide)

lemma units_ne_zero (s : Sign) {m : ℕ} (e : ℤ) (hm : 0 < m) : units (.finite s m e hm) ≠ 0 := by
  have hpos : 0 < m * 2 ^ (e + 1074).toNat := Nat.mul_pos hm (Nat.two_pow_pos _)
  cases s <;> simp only [units, Sign.apply] <;> omega

section Operations

variable {x y z : Float}

lemma isNaN_div (hx : x.isNaN = false) (hy : y.isFinite = true) (hne : unitsOf y ≠ 0) :
    (x / y).isNaN = false := by
  apply isNaN_pack (u := UnpackedFloat.div Format.binary64 x.toModel.unpack y.toModel.unpack)
  change x.toModel.unpack.isNaN = false at hx
  change y.toModel.unpack.isFinite = true at hy
  unfold unitsOf at hne
  generalize x.toModel.unpack = u, y.toModel.unpack = v at *
  cases v with
  | infinity | notANumber => cases hy
  | zero => exact absurd rfl hne
  | finite t n f hn =>
    cases u with
    | notANumber => cases hx
    | infinity | zero => rfl
    | finite s m e hm =>
      unfold UnpackedFloat.div roundWithAccuracy
      dsimp only
      split <;> rfl

lemma isNaN_mul_of_ne_zero (hx : x.isFinite = true) (hne : unitsOf x ≠ 0) (hy : y.isNaN = false) :
    (x * y).isNaN = false := by
  apply isNaN_pack (u := UnpackedFloat.mul Format.binary64 x.toModel.unpack y.toModel.unpack)
  change x.toModel.unpack.isFinite = true at hx
  change y.toModel.unpack.isNaN = false at hy
  unfold unitsOf at hne
  generalize x.toModel.unpack = u, y.toModel.unpack = v at *
  cases u with
  | infinity | notANumber => cases hx
  | zero => exact absurd rfl hne
  | finite s m e hm =>
    cases v with
    | notANumber => cases hy
    | infinity | zero => rfl
    | finite t n f hn =>
      unfold UnpackedFloat.mul roundWithAccuracy
      dsimp only
      split <;> rfl

lemma isNaN_mul_of_zero (hx : x.isFinite = true) (hzero : unitsOf x = 0) (hy : y.isFinite = false) :
    (x * y).isNaN = true := by
  change (Float.Model.pack (UnpackedFloat.mul Format.binary64 x.toModel.unpack
    y.toModel.unpack)).unpack.isNaN = true
  change x.toModel.unpack.isFinite = true at hx
  change y.toModel.unpack.isFinite = false at hy
  unfold unitsOf at hzero
  generalize x.toModel.unpack = u, y.toModel.unpack = v at *
  have hproduct : UnpackedFloat.mul Format.binary64 u v = .notANumber := by
    cases u with
    | infinity | notANumber => cases hx
    | finite s m e hm => exact absurd hzero (units_ne_zero s e hm)
    | zero s =>
      cases v with
      | infinity | notANumber => rfl
      | zero | finite => cases hy
  rw [hproduct, unpack_pack (u := .notANumber) trivial]
  rfl

lemma isNaN_finite_add (hx : x.isFinite = true) (hy : y.isNaN = false) : (x + y).isNaN = false := by
  by_cases hfinite : y.isFinite = true
  · exact (unitsOf_add hx hfinite).1
  · apply isNaN_pack (u := UnpackedFloat.add Format.binary64 x.toModel.unpack y.toModel.unpack)
    change x.toModel.unpack.isFinite = true at hx
    change y.toModel.unpack.isNaN = false at hy
    change ¬ y.toModel.unpack.isFinite = true at hfinite
    generalize x.toModel.unpack = u, y.toModel.unpack = v at *
    cases v with
    | notANumber => cases hy
    | zero | finite => exact absurd rfl hfinite
    | infinity t =>
      cases u with
      | infinity | notANumber => cases hx
      | zero | finite => rfl

lemma isNaN_add_of_isNaN (x : Float) (hy : y.isNaN = true) : (x + y).isNaN = true := by
  change (Float.Model.pack (UnpackedFloat.add Format.binary64 x.toModel.unpack
    y.toModel.unpack)).unpack.isNaN = true
  change y.toModel.unpack.isNaN = true at hy
  generalize x.toModel.unpack = u, y.toModel.unpack = v at *
  have hsum : UnpackedFloat.add Format.binary64 u v = .notANumber := by
    cases v with
    | infinity | zero | finite => cases hy
    | notANumber => cases u <;> rfl
  rw [hsum, unpack_pack (u := .notANumber) trivial]
  rfl

end Operations

end Lindenmayer.Binary64
