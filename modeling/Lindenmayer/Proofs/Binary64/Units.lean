import Lindenmayer.Proofs.Binary64.Order
import Lindenmayer.Proofs.Binary64.Rounded
import Lindenmayer.Proofs.Binary64.Unpacked

/-! Doubles as whole numbers, in units of the smallest positive one. An infinite double counts as the
first power of two that is too large. -/

namespace Lindenmayer.Binary64

open Float.Model (UnpackedFloat Format)
open Float.Model.UnpackedFloat

def topPlace : ℕ := 2098

def overflow : ℕ := 2 ^ topPlace

lemma overflow_pos : 0 < overflow := Nat.two_pow_pos topPlace

def units : UnpackedFloat → ℤ
  | .infinity s => s.apply overflow
  | .finite s m e _ => s.apply (m * 2 ^ (e + 1074).toNat : ℕ)
  | _ => 0

def capped (z : ℤ) : ℤ := max (-overflow) (min z overflow)

/-- A number of units rounded to fifty-three binary digits and to a multiple of `2 ^ k`, in these. -/
def nearest (k : ℕ) (z : ℤ) : ℤ := if 0 ≤ z then rounded k z.natAbs else -rounded k z.natAbs

lemma capped_zero : capped 0 = 0 := by
  unfold capped
  omega

lemma rounded_zero (k : ℕ) : rounded k 0 = 0 := by
  simp [rounded, Decimal.roundDiv_zero]

lemma nearest_neg (k : ℕ) (z : ℤ) : nearest k (-z) = -nearest k z := by
  unfold nearest
  rw [Int.natAbs_neg]
  rcases lt_trichotomy z 0 with h | rfl | h
  · rw [if_pos (by omega), if_neg (by omega), neg_neg]
  · simp [rounded_zero]
  · rw [if_neg (by omega), if_pos (by omega)]

lemma nearest_natCast (k n : ℕ) : nearest k n = rounded k n := by
  simp [nearest]

lemma nearest_apply (k n : ℕ) (s : Sign) : nearest k (s.apply n) = s.apply (rounded k n) := by
  cases s with
  | negative => rw [Sign.apply, nearest_neg, nearest_natCast, Sign.apply]
  | positive => exact nearest_natCast k n

lemma nearest_zero (k : ℕ) : nearest k 0 = 0 := by
  simp [nearest, rounded_zero]

lemma nearest_mono (k : ℕ) {y z : ℤ} (h : y ≤ z) : nearest k y ≤ nearest k z := by
  unfold nearest
  split
  · rw [if_pos (by omega)]
    have := rounded_mono k (m := y.natAbs) (n := z.natAbs) (by omega)
    omega
  · split
    · omega
    · have := rounded_mono k (m := z.natAbs) (n := y.natAbs) (by omega)
      omega

/-- A double is a whole number of units, of these or of the larger ones that its digits can count. -/
structure Denotes (u : UnpackedFloat) (z : ℤ) : Prop where
  canonical : Canonical u
  isFinite : u.isFinite = true
  units_eq : units u = z

lemma nearest_units (k : ℕ) {u : UnpackedFloat} (h : Canonical u) (hfinite : u.isFinite = true) :
    nearest k (units u * 2 ^ k) = units u := by
  cases u with
  | infinity | notANumber => cases hfinite
  | zero =>
    change nearest k (0 * 2 ^ k) = 0
    rw [zero_mul, nearest_zero]
  | finite s m e hm =>
    have hunits : units (.finite s m e hm) * 2 ^ k =
        s.apply (m * 2 ^ ((e + 1074).toNat + k) : ℕ) := by
      rw [units, Nat.pow_add, ← Nat.mul_assoc]
      cases s <;> simp [Sign.apply]
    rw [hunits, nearest_apply, rounded_of_few h.1, units]

section Magnitude

variable {m : ℕ} {e f : ℤ}

lemma magnitude_lt (hm : m < 2 ^ 53) (he : -1074 ≤ e) (hef : e < f) :
    m * 2 ^ (e + 1074).toNat < 2 ^ (f + 1126).toNat := by
  have hexponent : 53 + (e + 1074).toNat ≤ (f + 1126).toNat := by omega
  apply (Nat.mul_lt_mul_of_pos_right hm (Nat.two_pow_pos _)).trans_le
  rw [← Nat.pow_add]
  exact Nat.pow_le_pow_right (by decide) hexponent

lemma le_magnitude (hm : 2 ^ 52 ≤ m) (he : -1074 ≤ e) :
    2 ^ (e + 1126).toNat ≤ m * 2 ^ (e + 1074).toNat := by
  have hexponent : (e + 1126).toNat = 52 + (e + 1074).toNat := by omega
  rw [hexponent, Nat.pow_add]
  exact Nat.mul_le_mul_right _ hm

lemma magnitude_mono {n : ℕ} (hm : m < 2 ^ 53) (he : -1074 ≤ e) (hn : 2 ^ 52 ≤ n ∨ f = -1074)
    (h : e < f ∨ e = f ∧ m ≤ n) : m * 2 ^ (e + 1074).toNat ≤ n * 2 ^ (f + 1074).toNat := by
  rcases h with h | ⟨rfl, h⟩
  · exact (magnitude_lt hm he h).le.trans (le_magnitude (hn.resolve_right (by omega)) (by omega))
  · exact Nat.mul_le_mul_right _ h

lemma magnitude_lt_overflow (hm : m < 2 ^ 53) (he : -1074 ≤ e) (hfits : e ≤ 971) :
    m * 2 ^ (e + 1074).toNat < overflow := by
  have hplace : ((971 : ℤ) + 1 + 1126).toNat = topPlace := rfl
  rw [overflow, ← hplace]
  exact magnitude_lt hm he (Int.lt_add_one_of_le hfits)

lemma overflow_le_magnitude (hm : 2 ^ 52 ≤ m) (hbig : 971 < e) :
    overflow ≤ m * 2 ^ (e + 1074).toNat := by
  have hplace : topPlace ≤ (e + 1126).toNat := by
    unfold topPlace
    omega
  rw [overflow]
  exact (Nat.pow_le_pow_right (by decide) hplace).trans (le_magnitude hm (by omega))

end Magnitude

lemma capped_apply (s : Sign) (n : ℕ) : capped (s.apply n) = s.apply (min n overflow : ℕ) := by
  cases s <;> simp only [capped, Sign.apply] <;> omega

lemma units_stored {u : UnpackedFloat} (h : Canonical u) : units (stored u) = capped (units u) := by
  cases u with
  | infinity s =>
    change s.apply overflow = capped (s.apply overflow)
    rw [capped_apply, Nat.min_self]
  | notANumber | zero => exact capped_zero.symm
  | finite s m e hm =>
    obtain ⟨hlt, hge, hdigits⟩ := h
    rw [units, capped_apply, stored]
    split
    · next hbig =>
      have hle := overflow_le_magnitude (hdigits.resolve_right (by omega)) hbig
      rw [Nat.min_eq_right hle, units]
    · next hfits =>
      have hlt := magnitude_lt_overflow hlt hge (not_lt.mp hfits)
      rw [Nat.min_eq_left hlt.le, units]

/-- A double that has been stored: its exponent is none of those that are too large. -/
structure Settled (u : UnpackedFloat) : Prop where
  canonical : Canonical u
  stored : stored u = u

lemma settled_unpack (x : Float) : Settled x.toModel.unpack :=
  ⟨canonical_unpack x, stored_unpack x⟩

lemma Settled.magnitude_lt {s : Sign} {m : ℕ} {e : ℤ} {hm : 0 < m} (h : Settled (.finite s m e hm)) :
    m * 2 ^ (e + 1074).toNat < overflow := by
  have hfits : ¬ 971 < e := by
    intro hbig
    have hstored := h.stored
    rw [Binary64.stored, if_pos hbig] at hstored
    cases hstored
  exact magnitude_lt_overflow h.canonical.1 h.canonical.2.1 (not_lt.mp hfits)

lemma Settled.abs_units_lt_iff {u : UnpackedFloat} (h : Settled u) (hnumber : u.isNaN = false) :
    |units u| < overflow ↔ u.isFinite = true := by
  cases u with
  | infinity s =>
    refine iff_of_false ?_ Bool.false_ne_true
    cases s <;> simp only [units, Sign.apply, abs_neg, Nat.abs_cast, lt_irrefl, not_false_iff]
  | notANumber => cases hnumber
  | zero =>
    refine iff_of_true ?_ rfl
    change |(0 : ℤ)| < overflow
    rw [abs_zero]
    exact Int.natCast_pos.mpr overflow_pos
  | finite s m e hm =>
    have hlt := h.magnitude_lt
    simp only [units, isFinite, iff_true]
    cases s <;> simp only [Sign.apply, abs_neg, Nat.abs_cast] <;> exact_mod_cast hlt

lemma Settled.units_mono {u v : UnpackedFloat} (hu : Settled u) (hv : Settled v)
    (h : rank u ≤ rank v) : units u ≤ units v := by
  have htop := overflow_pos
  cases u with
  | infinity s =>
    cases v with
    | infinity t =>
      cases s <;> cases t <;>
        simp only [rank, Prod.Lex.toLex_le_toLex, units, Sign.apply] at h ⊢ <;> omega
    | notANumber | zero =>
      cases s <;> simp only [rank, Prod.Lex.toLex_le_toLex, units, Sign.apply] at h ⊢ <;> omega
    | finite t n f hn =>
      have hlt := hv.magnitude_lt
      cases s <;> cases t <;>
        simp only [rank, Prod.Lex.toLex_le_toLex, units, Sign.apply] at h ⊢ <;> omega
  | notANumber | zero =>
    cases v with
    | infinity t | finite t =>
      cases t <;> simp only [rank, Prod.Lex.toLex_le_toLex, units, Sign.apply] at h ⊢ <;> omega
    | notANumber | zero => exact le_rfl
  | finite s m e hm =>
    have hlt := hu.magnitude_lt
    cases v with
    | infinity t =>
      cases s <;> cases t <;>
        simp only [rank, Prod.Lex.toLex_le_toLex, units, Sign.apply] at h ⊢ <;> omega
    | notANumber | zero =>
      cases s <;> simp only [rank, Prod.Lex.toLex_le_toLex, units, Sign.apply] at h ⊢ <;> omega
    | finite t n f hn =>
      obtain ⟨hmlt, hmge, hmdigits⟩ := hu.canonical
      obtain ⟨hnlt, hnge, hndigits⟩ := hv.canonical
      -- Where both are below zero the larger magnitude is the smaller number.
      cases s <;> cases t <;>
        simp only [rank, Prod.Lex.toLex_le_toLex, units, Sign.apply] at h ⊢
      · have hle := magnitude_mono (m := n) hnlt hnge hmdigits (by omega)
        omega
      · omega
      · omega
      · have hle := magnitude_mono (m := m) hmlt hmge hndigits (by omega)
        omega

end Lindenmayer.Binary64
