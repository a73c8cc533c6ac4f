import Lindenmayer.Proofs.Text.Lines
import Lindenmayer.Proofs.Text.Symbol

/-! Texts without a half of a pair. The parts of one are such texts, and a text is one if its lines are: a
half is no break. -/

namespace Lindenmayer.Text

variable {s u : Text}

lemma isWhole_iff : isWhole s = true ↔ ∀ c ∈ s, c.isChar = true := List.all_eq_true

@[simp] lemma isWhole_append (s u : Text) : isWhole (s ++ u) = (isWhole s && isWhole u) :=
  List.all_append

lemma isWhole_of_subset (h : isWhole s = true) (hu : u ⊆ s) : isWhole u = true :=
  isWhole_iff.mpr fun c hc => isWhole_iff.mp h c (hu hc)

lemma isChar_of_isBreak {c : Symbol} (h : isBreak c = true) : c.isChar = true := by
  cases c with
  | char c => rfl
  | half n =>
    have hlow := (Symbol.code_half_range n).1
    simp only [isBreak, Bool.or_eq_true, Bool.and_eq_true, decide_eq_true_eq, beq_iff_eq] at h
    change _ ≤ Coded.code (Symbol.half n) at hlow
    simp only [firstHalf] at hlow
    omega

lemma all_isWhole_consFirst (c : Symbol) (ls : List Text) :
    (consFirst c ls).all isWhole = (c.isChar && ls.all isWhole) := by
  cases ls with
  | nil => simp [consFirst, isWhole]
  | cons l ls => simp [consFirst, isWhole, Bool.and_assoc]

lemma all_isWhole_lines (s : Text) : (lines s).all isWhole = isWhole s := by
  induction s with
  | nil => rfl
  | cons c s ih =>
    have hcons : isWhole (c :: s) = (c.isChar && isWhole s) := List.all_cons
    rw [hcons, ← ih]
    obtain ⟨hmute, hlines⟩ | ⟨-, hc, hlines⟩ | ⟨-, hlines⟩ := lines_cons_cases c s
    · rw [hlines, isChar_of_isBreak (isBreak_of_isMute hmute), Bool.true_and]
    · rw [hlines, isChar_of_isBreak hc, Bool.true_and]
      rfl
    · rw [hlines, all_isWhole_consFirst]

lemma isWhole_joinLines (ls : List Text) : isWhole (joinLines ls) = ls.all isWhole := by
  induction ls with
  | nil => rfl
  | cons l ls ih =>
    cases ls with
    | nil => simp [joinLines]
    | cons l' ls =>
      rw [joinLines_cons_cons, isWhole_append, List.all_cons, ← ih]
      rfl

end Lindenmayer.Text
