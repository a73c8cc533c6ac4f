import Lindenmayer.Proofs.Decimal.Numeral
import Mathlib

/-! Doubles taken apart into sign, mantissa and exponent, and put together again. A mantissa has
fifty-three digits unless its exponent is the smallest one, and nothing is lost in between but what is
beyond the largest exponent. -/

namespace Lindenmayer.Binary64

open Float.Model (UnpackedFloat Format)
open Float.Model.UnpackedFloat

def Canonical : UnpackedFloat → Prop
  | .finite _ m e _ => m < 2 ^ 53 ∧ -1074 ≤ e ∧ (2 ^ 52 ≤ m ∨ e = -1074)
  | _ => True

lemma toNat_implicit (f : BitVec 52) : (1#1 ++ f).toNat = 2 ^ 52 + f.toNat := by
  rw [BitVec.toNat_append, ← Nat.shiftLeft_add_eq_or_of_lt f.isLt]
  rfl

lemma finite_congr {s : Sign} {m n : ℕ} {e f : ℤ} {hm : 0 < m} {hn : 0 < n} (h : m = n)
    (he : e = f) : UnpackedFloat.finite s m e hm = .finite s n f hn := by
  subst h he
  rfl

/-- The double with these fields. -/
def ofFields (s : Sign) (e : BitVec 11) (m : BitVec 52) : UnpackedFloat :=
  if e = -1#11 then if m = 0#52 then .infinity s else .notANumber
  else if e = 0#11 then
    if h : m = 0#52 then .zero s
    else .finite s m.toNat (-1074) (by simpa [BitVec.toNat_pos, BitVec.pos_iff_ne_zero])
  else .finite s (1#1 ++ m).toNat (e.toNat - 1075) (by rw [toNat_implicit]; omega)

lemma unpack_eq_ofFields (b : BitVec 64) :
    unpack Format.binary64 b =
      ofFields (.ofBitVec (@unpackSign Format.binary64 b))
        (@unpackExponent Format.binary64 b) (@unpackMantissa Format.binary64 b) := by
  unfold unpack ofFields
  dsimp only
  by_cases hfull : @unpackExponent Format.binary64 b = -1#11
  · rw [if_pos hfull, if_pos hfull]
  · rw [if_neg hfull, if_neg hfull]
    by_cases hzero : @unpackExponent Format.binary64 b = 0#11
    · have hexponent : ((@unpackExponent Format.binary64 b).toNat : ℤ) - (1023 + 52) + 1 = -1074 := by
        rw [hzero]
        rfl
      rw [if_pos hzero, if_pos hzero]
      by_cases hm : @unpackMantissa Format.binary64 b = 0#52
      · rw [dif_pos hm, dif_pos hm]
      · rw [dif_neg hm, dif_neg hm]
        exact finite_congr rfl hexponent
    · rw [if_neg hzero, if_neg hzero]
      rfl

lemma unpack_packComponents (s : Sign) (e : BitVec 11) (m : BitVec 52) :
    unpack Format.binary64 (packComponents Format.binary64 s e m) = ofFields s e m := by
  rw [unpack_eq_ofFields, unpackMantissa_packComponents, unpackExponent_packComponents,
    unpackSign_packComponents, Sign.ofBitVec_toBitVec]

/-- What is left of a double when it is stored: beyond the largest exponent there is only infinity. -/
def stored : UnpackedFloat → UnpackedFloat
  | .finite s m e h => if 971 < e then .infinity s else .finite s m e h
  | u => u

lemma toNat_ofNat_of_lt {w n : ℕ} (h : n < 2 ^ w) : (BitVec.ofNat w n).toNat = n := by
  rw [BitVec.toNat_ofNat, Nat.mod_eq_of_lt h]

lemma ofNat_ne_of_toNat_ne {w n : ℕ} (h : n < 2 ^ w) {b : BitVec w} (hne : n ≠ b.toNat) :
    BitVec.ofNat w n ≠ b := by
  rintro rfl
  exact hne (toNat_ofNat_of_lt h).symm

lemma pack_finite {m : ℕ} {e : ℤ} (s : Sign) (hm : 0 < m) (hlt : m < 2 ^ 53) :
    UnpackedFloat.pack Format.binary64 (.finite s m e hm) =
      if 971 < e then packedInfinity Format.binary64 s
      else if 2 ^ 52 ≤ m then
        packComponents Format.binary64 s (.ofNat 11 (e + 1075).toNat) (.ofNat 52 m)
      else packComponents Format.binary64 s 0#11 (.ofNat 52 m) := by
  have hbias : (e + (Format.binary64.exponentBias : ℤ) +
      (Format.binary64.mantissaBitsWithoutImplicit : ℤ)).toNat = (e + 1075).toNat := by
    change (e + 1023 + 52).toNat = _
    congr 1
    omega
  have hbits : Format.binary64.mantissaBits = 53 := rfl
  have hlog : m.log2 + 1 = 53 ↔ 2 ^ 52 ≤ m := by
    have hle := Nat.le_log2 (k := 52) hm.ne'
    have := (Nat.log2_lt (k := 53) hm.ne').mpr hlt
    omega
  have hbig : 2 ^ 11 ≤ (e + 1075).toNat + 1 ↔ 971 < e := by omega
  unfold UnpackedFloat.pack
  simp only [hbias, hbits, hlog, hbig]

lemma unpack_pack_finite {s : Sign} {m : ℕ} {e : ℤ} {hm : 0 < m}
    (h : Canonical (.finite s m e hm)) :
    unpack Format.binary64 (UnpackedFloat.pack Format.binary64 (.finite s m e hm)) =
      stored (.finite s m e hm) := by
  obtain ⟨hlt, hge, hdigits⟩ := h
  rw [pack_finite s hm hlt, stored]
  by_cases hbig : 971 < e
  · rw [if_pos hbig, if_pos hbig]
    exact unpack_packComponents s _ _
  · rw [if_neg hbig, if_neg hbig]
    have hfield : (e + 1075).toNat < 2 ^ 11 := by omega
    by_cases hnormal : 2 ^ 52 ≤ m
    · have hfull : BitVec.ofNat 11 (e + 1075).toNat ≠ -1#11 :=
        ofNat_ne_of_toNat_ne hfield (by change _ ≠ 2047; omega)
      have hzero : BitVec.ofNat 11 (e + 1075).toNat ≠ 0#11 :=
        ofNat_ne_of_toNat_ne hfield (by change _ ≠ 0; omega)
      rw [if_pos hnormal, unpack_packComponents, ofFields, if_neg hfull, if_neg hzero]
      apply finite_congr
      · rw [toNat_implicit, BitVec.toNat_ofNat]
        omega
      · rw [toNat_ofNat_of_lt hfield]
        omega
    · have hfraction : m < 2 ^ 52 := by omega
      have hzero : BitVec.ofNat 52 m ≠ 0#52 :=
        ofNat_ne_of_toNat_ne hfraction (by change _ ≠ 0; omega)
      rw [if_neg hnormal, unpack_packComponents, ofFields, if_neg (by decide), if_pos rfl,
        dif_neg hzero]
      exact finite_congr (toNat_ofNat_of_lt hfraction) (by omega)

lemma unpack_pack {u : UnpackedFloat} (h : Canonical u) :
    (Float.Model.pack u).unpack = stored u := by
  cases u with
  | infinity s => exact unpack_packComponents s _ _
  | notANumber => exact unpack_packComponents _ _ _
  | zero s => exact unpack_packComponents s _ _
  | finite s m e hm => exact unpack_pack_finite h

lemma canonical_ofFields (s : Sign) (e : BitVec 11) (m : BitVec 52) :
    Canonical (ofFields s e m) ∧ stored (ofFields s e m) = ofFields s e m := by
  have hm := m.isLt
  have he := e.isLt
  unfold ofFields
  split
  · split <;> exact ⟨trivial, rfl⟩
  · next hfull =>
    split
    · split
      · exact ⟨trivial, rfl⟩
      · exact ⟨⟨by omega, le_rfl, .inr rfl⟩, rfl⟩
    · next hzero =>
      have hpos : e.toNat ≠ 0 := BitVec.toNat_ne.mp hzero
      have hfits : e.toNat ≠ 2047 := BitVec.toNat_ne.mp hfull
      have hm' := toNat_implicit m
      refine ⟨⟨by omega, by omega, .inl (by omega)⟩, ?_⟩
      rw [stored, if_neg (by omega)]

lemma canonical_unpack (x : Float) : Canonical x.toModel.unpack := by
  rw [Float.Model.unpack, unpack_eq_ofFields]
  exact (canonical_ofFields _ _ _).1

lemma stored_unpack (x : Float) : stored x.toModel.unpack = x.toModel.unpack := by
  rw [Float.Model.unpack, unpack_eq_ofFields]
  exact (canonical_ofFields _ _ _).2

lemma toNat_unpackExponent (b : BitVec 64) :
    (@unpackExponent Format.binary64 b).toNat = b.toNat / 2 ^ 52 % 2 ^ 11 := by
  change (b.extractLsb 62 52).toNat = _
  rw [BitVec.extractLsb_toNat, Nat.shiftRight_eq_div_pow]

end Lindenmayer.Binary64
