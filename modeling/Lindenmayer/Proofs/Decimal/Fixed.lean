import Lindenmayer.Decimal.Fixed
import Mathlib.Data.List.Basic

/-! The characters that numerals are made of. -/

namespace Lindenmayer.Decimal

lemma isDigit_of_mem_digits {n : ℕ} {c : Char} (h : c ∈ digits n) : c.isDigit = true :=
  Nat.isDigit_of_mem_toDigits (by decide) (by decide) h

lemma isDigit_of_mem_paddedDigits {places n : ℕ} {c : Char} (h : c ∈ paddedDigits places n) :
    c.isDigit = true := by
  induction places generalizing n with
  | zero => exact absurd h List.not_mem_nil
  | succ places ih =>
    rcases List.mem_append.mp h with h | h
    · exact ih h
    · obtain rfl := List.mem_singleton.mp h
      rw [Nat.isDigit_digitChar]
      exact decide_eq_true (Nat.mod_lt n (by decide))

lemma mem_of_mem_trimZeros {ds : List Char} {c : Char} (h : c ∈ trimZeros ds) : c ∈ ds := by
  have hrev := List.mem_reverse.mp h
  exact List.mem_reverse.mp ((List.dropWhile_suffix _).subset hrev)

lemma mem_sign {negative : Bool} {c : Char} (h : c ∈ sign negative) : c = '-' := by
  cases negative with
  | false => exact absurd h List.not_mem_nil
  | true => exact List.mem_singleton.mp h

lemma mem_numeral {negative : Bool} {places n : ℕ} {c : Char} (h : c ∈ numeral negative places n) :
    c.isDigit = true ∨ c = '-' ∨ c = '.' := by
  simp only [numeral, List.mem_append] at h
  rcases h with (h | h) | h
  · exact .inr (.inl (mem_sign h))
  · exact .inl (isDigit_of_mem_digits h)
  · split at h
    · exact absurd h List.not_mem_nil
    · rcases List.mem_cons.mp h with h | h
      · exact .inr (.inr h)
      · exact .inl (isDigit_of_mem_paddedDigits (mem_of_mem_trimZeros h))

lemma mem_fixed {places : ℕ} {x : Float} {c : Char} (h : c ∈ fixed places x) :
    c.isDigit = true ∨ c ∈ ['-', '.', 'a', 'f', 'i', 'n'] := by
  unfold fixed at h
  split at h
  · have hnan : ∀ c ∈ "nan".toList, c ∈ ['-', '.', 'a', 'f', 'i', 'n'] := by simp
    exact .inr (hnan c h)
  · have hinf : ∀ negative, ∀ c ∈ infinite negative, c ∈ ['-', '.', 'a', 'f', 'i', 'n'] := by
      simp [infinite, sign]
    exact .inr (hinf _ c h)
  · rcases mem_numeral h with h | rfl | rfl
    · exact .inl h
    · exact .inr (by decide)
    · exact .inr (by decide)

end Lindenmayer.Decimal
