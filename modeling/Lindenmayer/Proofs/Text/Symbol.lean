import Lindenmayer.Text.Symbol
import Mathlib.Logic.Function.Basic

/-! Symbols are their code points: they are in a line by them, and the characters are those that are no
half of a pair. -/

namespace Lindenmayer

namespace Symbol

lemma code_char_lt_or (c : Char) :
    (char c).code < firstHalf ∨ firstHalf + halfCount ≤ (char c).code := by
  have hvalid : c.toNat < 0xD800 ∨ 0xDFFF < c.toNat ∧ c.toNat < 0x110000 := c.valid
  simp only [code, firstHalf, halfCount]
  omega

lemma code_half_range (n : Fin halfCount) :
    firstHalf ≤ (half n).code ∧ (half n).code < firstHalf + halfCount := by
  simp only [code]
  omega

lemma code_injective : Function.Injective code := by
  intro a b h
  cases a with
  | char c =>
    cases b with
    | char d => exact congrArg char (Char.toNat_inj.mp h)
    | half n =>
      have hc := code_char_lt_or c
      have hn := code_half_range n
      omega
  | half m =>
    cases b with
    | char d =>
      have hd := code_char_lt_or d
      have hm := code_half_range m
      omega
    | half n => exact congrArg half (Fin.ext (Nat.add_left_cancel h))

instance : Std.Asymm (α := Symbol) (· < ·) := ⟨fun _ _ => Nat.lt_asymm⟩

instance : Std.Trichotomous (α := Symbol) (· < ·) :=
  ⟨fun _ _ hab hba => code_injective (Nat.le_antisymm (Nat.not_lt.mp hba) (Nat.not_lt.mp hab))⟩

instance : Std.IsLinearOrder Symbol where
  le_refl a := Nat.le_refl a.code
  le_trans _ _ _ := Nat.le_trans
  le_antisymm _ _ hab hba := code_injective (Nat.le_antisymm hab hba)
  le_total a b := Nat.le_total a.code b.code

instance : Std.LawfulOrderLT Symbol := ⟨fun _ _ => Nat.lt_iff_le_and_not_ge⟩

end Symbol

namespace Text

@[simp] lemma ofString_inj {s t : String} : ofString s = ofString t ↔ s = t := by
  refine ⟨fun h => ?_, congrArg ofString⟩
  rw [← toString_ofString s, h, toString_ofString]

@[simp] lemma ofString_beq (s t : String) : (ofString s == ofString t) = (s == t) := by
  rw [Bool.eq_iff_iff, beq_iff_eq, beq_iff_eq, ofString_inj]

end Text

end Lindenmayer
