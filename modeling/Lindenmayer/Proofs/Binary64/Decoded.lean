import Lindenmayer.Proofs.Binary64.Unpacked

/-! The value of a double, read off its three fields or off the double taken apart: the same. -/

namespace Lindenmayer.Binary64

open Float.Model (UnpackedFloat Format)
open Float.Model.UnpackedFloat

lemma toNat_unpackMantissa (b : BitVec 64) :
    (@unpackMantissa Format.binary64 b).toNat = b.toNat % 2 ^ 52 := by
  change (b.extractLsb 51 0).toNat = _
  rw [BitVec.extractLsb_toNat, Nat.shiftRight_zero]

lemma toNat_unpackSign (b : BitVec 64) :
    (@unpackSign Format.binary64 b).toNat = b.toNat / 2 ^ 63 := by
  have hlt := b.isLt
  change (b.extractLsb 63 63).toNat = _
  rw [BitVec.extractLsb_toNat, Nat.shiftRight_eq_div_pow]
  exact Nat.mod_eq_of_lt (by omega)

lemma ofBitVec_beq_negative (b : BitVec 1) :
    (Sign.ofBitVec b == .negative) = decide (b.toNat ≠ 0) := by
  unfold Sign.ofBitVec
  split
  · next h =>
    rw [h]
    rfl
  · next h => exact (decide_eq_true (BitVec.toNat_ne.mp h)).symm

def valueOf : UnpackedFloat → Value
  | .infinity s => .infinite (s == .negative)
  | .notANumber => .nan
  | .zero s => .finite (s == .negative) 0 (-1074)
  | .finite s m e _ => .finite (s == .negative) m e

lemma value_eq_valueOf (x : Float) : value x = valueOf x.toModel.unpack := by
  have hsign : (Sign.ofBitVec (@unpackSign Format.binary64 x.toBits.toBitVec) == .negative) =
      decide (2 ^ 63 ≤ x.toBits.toNat) := by
    rw [ofBitVec_beq_negative, toNat_unpackSign]
    simp
  have hexponent : _ = x.toBits.toNat / _ % _ := toNat_unpackExponent x.toBits.toBitVec
  have hmantissa : _ = x.toBits.toNat % _ := toNat_unpackMantissa x.toBits.toBitVec
  change _ = valueOf (unpack Format.binary64 x.toBits.toBitVec)
  rw [unpack_eq_ofFields]
  generalize @unpackSign Format.binary64 x.toBits.toBitVec = s at *
  generalize @unpackExponent Format.binary64 x.toBits.toBitVec = e at *
  generalize @unpackMantissa Format.binary64 x.toBits.toBitVec = m at *
  have hfull : e = -1#11 ↔ e.toNat = 2047 := BitVec.toNat_inj.symm
  have hzero : e = 0#11 ↔ e.toNat = 0 := BitVec.toNat_inj.symm
  have hnone : m = 0#52 ↔ m.toNat = 0 := BitVec.toNat_inj.symm
  simp only [value, ofFields, ← hexponent, ← hmantissa, ← hsign, hfull, hzero, hnone]
  by_cases hlarge : e.toNat = 2047
  · rw [if_pos hlarge, if_pos hlarge]
    by_cases hm : m.toNat = 0
    · rw [if_pos hm, if_pos hm, valueOf]
    · rw [if_neg hm, if_neg hm, valueOf]
  · rw [if_neg hlarge, if_neg hlarge]
    by_cases hsmall : e.toNat = 0
    · rw [if_pos hsmall, if_pos hsmall]
      by_cases hm : m.toNat = 0
      · rw [dif_pos hm, hm, valueOf]
      · rw [dif_neg hm, valueOf]
    · rw [if_neg hsmall, if_neg hsmall, valueOf, toNat_implicit, Nat.add_comm]

lemma isNaN_iff_value (x : Float) : x.isNaN = true ↔ value x = .nan := by
  change x.toModel.unpack.isNaN = true ↔ _
  rw [value_eq_valueOf]
  cases x.toModel.unpack <;> simp [isNaN, valueOf]

lemma isFinite_iff (x : Float) : x.isFinite = true ↔ ∃ q, rational? x = some q := by
  change x.toModel.unpack.isFinite = true ↔ _
  rw [rational?, value_eq_valueOf]
  cases x.toModel.unpack <;> simp [isFinite, valueOf]

lemma isInf_iff (x : Float) : x.isInf = true ↔ ∃ negative, value x = .infinite negative := by
  change x.toModel.unpack.isInf = true ↔ _
  rw [value_eq_valueOf]
  cases x.toModel.unpack <;> simp [isInf, valueOf]

end Lindenmayer.Binary64
