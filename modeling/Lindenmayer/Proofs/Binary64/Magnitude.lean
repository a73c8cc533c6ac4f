import Lindenmayer.Binary64.Nearest
import Lindenmayer.Proofs.Binary64.Bounded
import Lindenmayer.Proofs.Binary64.Decoded

/-! Doubles made of the bits of a magnitude, which count the doubles upwards from zero: what the bits say is
the value, below the bits of infinity. -/

namespace Lindenmayer.Binary64

open Float.Model (UnpackedFloat Format)
open Float.Model.UnpackedFloat

lemma unpack_ofBits (b : UInt64) :
    (Float.ofBits b).toModel.unpack =
      ofFields (.ofBitVec (@unpackSign Format.binary64 b.toBitVec))
        (@unpackExponent Format.binary64 b.toBitVec) (@unpackMantissa Format.binary64 b.toBitVec) := by
  obtain ⟨hcanonical, hstored⟩ := canonical_ofFields
    (.ofBitVec (@unpackSign Format.binary64 b.toBitVec))
    (@unpackExponent Format.binary64 b.toBitVec) (@unpackMantissa Format.binary64 b.toBitVec)
  rw [← unpack_eq_ofFields] at hcanonical hstored ⊢
  change (Float.Model.pack (unpack Format.binary64 b.toBitVec)).unpack = _
  rw [unpack_pack hcanonical, hstored]

lemma natAbs_apply (s : Sign) (n : ℕ) : (s.apply n).natAbs = n := by
  cases s <;> simp only [Sign.apply, Int.natAbs_neg, Int.natAbs_natCast]

lemma isFinite_of_value {x : Float} {negative : Bool} {mantissa : ℕ} {exponent : ℤ}
    (h : value x = .finite negative mantissa exponent) : x.isFinite = true := by
  rw [isFinite_iff, rational?, h]
  exact ⟨_, rfl⟩

/-- The fields of a finite double say how many units it is, and its exponent is none below the unit's. -/
lemma natAbs_unitsOf {x : Float} {negative : Bool} {mantissa : ℕ} {exponent : ℤ}
    (h : value x = .finite negative mantissa exponent) :
    -1074 ≤ exponent ∧ (unitsOf x).natAbs = mantissa * 2 ^ (exponent + 1074).toNat := by
  have hcanonical := canonical_unpack x
  rw [value_eq_valueOf] at h
  rw [unitsOf]
  cases hx : x.toModel.unpack with
  | infinity | notANumber =>
    rw [hx] at h
    cases h
  | zero s =>
    rw [hx] at h
    cases h
    exact ⟨le_rfl, rfl⟩
  | finite s m e hm =>
    rw [hx] at h hcanonical
    cases h
    exact ⟨hcanonical.2.1, natAbs_apply s _⟩

lemma valueOf_ofFields (s : Sign) {e : BitVec 11} (m : BitVec 52) (he : e.toNat ≠ 2047) :
    valueOf (ofFields s e m) =
      if e.toNat = 0 then .finite (s == .negative) m.toNat (-1074)
      else .finite (s == .negative) (2 ^ 52 + m.toNat) (e.toNat - 1075) := by
  have hfull : e ≠ -1#11 := BitVec.toNat_ne.mpr he
  have hzero : e = 0#11 ↔ e.toNat = 0 := BitVec.toNat_inj.symm
  have hnone : m = 0#52 ↔ m.toNat = 0 := BitVec.toNat_inj.symm
  simp only [ofFields, if_neg hfull, hzero, hnone]
  split
  · split
    · next hm => rw [valueOf, hm]
    · rfl
  · rw [valueOf, toNat_implicit]

section Magnitude

variable {bits : ℕ} (h : bits < infinityBits) (negative : Bool)

include h

lemma value_ofMagnitudeBits :
    value (ofMagnitudeBits negative bits) =
      if bits / 2 ^ 52 = 0 then .finite negative bits (-1074)
      else .finite negative (2 ^ 52 + bits % 2 ^ 52) ((bits / 2 ^ 52 : ℕ) - 1075) := by
  set b : UInt64 := .ofNat (bits + if negative then 2 ^ 63 else 0)
  have hexponent : (@unpackExponent Format.binary64 b.toBitVec).toNat = bits / 2 ^ 52 := by
    rw [toNat_unpackExponent, UInt64.toNat_toBitVec, UInt64.toNat_ofNat']
    unfold infinityBits at h
    split <;> omega
  have hmantissa : (@unpackMantissa Format.binary64 b.toBitVec).toNat = bits % 2 ^ 52 := by
    rw [toNat_unpackMantissa, UInt64.toNat_toBitVec, UInt64.toNat_ofNat']
    split <;> omega
  have hsign : (Sign.ofBitVec (@unpackSign Format.binary64 b.toBitVec) == .negative) = negative := by
    rw [ofBitVec_beq_negative, toNat_unpackSign, UInt64.toNat_toBitVec, UInt64.toNat_ofNat']
    unfold infinityBits at h
    cases negative
    · rw [if_neg Bool.false_ne_true, decide_eq_false_iff_not]
      omega
    · rw [if_pos rfl, decide_eq_true_iff]
      omega
  have hfits : bits / 2 ^ 52 ≠ 2047 := by
    unfold infinityBits at h
    omega
  change value (Float.ofBits b) = _
  rw [value_eq_valueOf, unpack_ofBits, valueOf_ofFields _ _ (hexponent.trans_ne hfits), hexponent,
    hmantissa, hsign]
  split
  · next hzero => rw [Nat.mod_eq_of_lt (by omega)]
  · rfl

lemma isFinite_ofMagnitudeBits : (ofMagnitudeBits negative bits).isFinite = true := by
  have hvalue := value_ofMagnitudeBits h negative
  split at hvalue <;> exact isFinite_of_value hvalue

lemma natAbs_unitsOf_ofMagnitudeBits :
    (unitsOf (ofMagnitudeBits negative bits)).natAbs =
      if bits / 2 ^ 52 = 0 then bits else (2 ^ 52 + bits % 2 ^ 52) * 2 ^ (bits / 2 ^ 52 - 1) := by
  have hvalue := value_ofMagnitudeBits h negative
  split at hvalue
  · next hzero =>
    rw [if_pos hzero, (natAbs_unitsOf hvalue).2]
    exact Nat.mul_one bits
  · next hfield =>
    have hexponent : (((bits / 2 ^ 52 : ℕ) : ℤ) - 1075 + 1074).toNat = bits / 2 ^ 52 - 1 := by omega
    rw [if_neg hfield, (natAbs_unitsOf hvalue).2, hexponent]

lemma unitsOf_ofMagnitudeBits_ne_zero (hbits : bits ≠ 0) :
    unitsOf (ofMagnitudeBits negative bits) ≠ 0 := by
  rw [← Int.natAbs_ne_zero, natAbs_unitsOf_ofMagnitudeBits h]
  split
  · exact hbits
  · exact (Nat.mul_pos (by omega) (Nat.two_pow_pos _)).ne'

omit h in
lemma within_ofMagnitudeBits {f : ℕ} (hlow : 52 ≤ f) (hhigh : f < 2098)
    (hbits : bits ≤ (f - 51) * 2 ^ 52) : Within (2 ^ f) (ofMagnitudeBits negative bits) := by
  have hlt : bits < infinityBits := by
    unfold infinityBits
    omega
  refine ⟨isFinite_ofMagnitudeBits hlt negative, ?_⟩
  rw [Int.abs_eq_natAbs, natAbs_unitsOf_ofMagnitudeBits hlt, Nat.cast_le]
  split
  · next hsmall =>
    have hpower : 2 ^ 52 ≤ 2 ^ f := Nat.pow_le_pow_right (by decide) hlow
    omega
  · rcases Nat.lt_or_ge (bits / 2 ^ 52) (f - 51) with hfield | hfield
    · calc (2 ^ 52 + bits % 2 ^ 52) * 2 ^ (bits / 2 ^ 52 - 1)
          ≤ 2 ^ 53 * 2 ^ (bits / 2 ^ 52 - 1) := Nat.mul_le_mul_right _ (by omega)
        _ ≤ 2 ^ f := by
            rw [← Nat.pow_add]
            exact Nat.pow_le_pow_right (by decide) (by omega)
    · have hexact : bits / 2 ^ 52 = f - 51 ∧ bits % 2 ^ 52 = 0 := by omega
      have hplace : 52 + (f - 51 - 1) = f := by omega
      rw [hexact.1, hexact.2, Nat.add_zero, ← Nat.pow_add, hplace]

end Magnitude

end Lindenmayer.Binary64
