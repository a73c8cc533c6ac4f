import Lindenmayer.Text.Blank
import Mathlib.Data.List.DropRight

/-! Trimmed texts, which have no blank at either end. Trimming makes every text one, and takes nothing
from an end without a blank. -/

namespace Lindenmayer.Text

structure Trimmed (s : Text) : Prop where
  head : ∀ c ∈ s.head?, isBlank c = false
  last : ∀ c ∈ s.getLast?, isBlank c = false

variable {s b : Text} {c : Symbol}

lemma not_isBlank_head_trimLeft (h : c ∈ (trimLeft s).head?) : isBlank c = false := by
  have hh := List.head?_dropWhile_not isBlank s
  rw [show (s.dropWhile isBlank).head? = some c from h] at hh
  exact hh

lemma not_isBlank_last_trimRight (h : c ∈ (trimRight s).getLast?) : isBlank c = false := by
  obtain ⟨hne, hlast⟩ := List.mem_getLast?_eq_getLast h
  have hnot := List.rdropWhile_last_not isBlank s hne
  rw [hlast]
  exact Bool.eq_false_iff.mpr hnot

lemma trimLeft_eq_self (h : ∀ c ∈ s.head?, isBlank c = false) : trimLeft s = s := by
  cases s with
  | nil => rfl
  | cons c s => exact List.dropWhile_cons_of_neg (by simp [h c rfl])

lemma trimRight_eq_self (h : ∀ c ∈ s.getLast?, isBlank c = false) : trimRight s = s := by
  refine List.rdropWhile_eq_self_iff.mpr fun hne => ?_
  simp [h _ (List.getLast_mem_getLast? hne)]

lemma trimLeft_isSuffix (s : Text) : trimLeft s <:+ s := List.dropWhile_suffix isBlank

lemma trimRight_isPrefix (s : Text) : trimRight s <+: s := List.rdropWhile_prefix isBlank s

lemma trimmed_trim (s : Text) : Trimmed (trim s) where
  head c hc := by
    obtain ⟨t, ht⟩ := trimRight_isPrefix (trimLeft s)
    apply not_isBlank_head_trimLeft (s := s)
    rw [← ht, List.head?_append, show (trimRight (trimLeft s)).head? = some c from hc]
    rfl
  last _ hc := not_isBlank_last_trimRight hc

lemma mem_of_mem_trim (h : c ∈ trim s) : c ∈ s :=
  (trimLeft_isSuffix s).subset ((trimRight_isPrefix (trimLeft s)).subset h)

lemma trimLeft_append (hb : ∀ c ∈ b, isBlank c = true) (s : Text) :
    trimLeft (b ++ s) = trimLeft s :=
  List.dropWhile_append_of_pos hb

lemma trimRight_append (s : Text) (hb : ∀ c ∈ b, isBlank c = true) :
    trimRight (s ++ b) = trimRight s := by
  rw [trimRight, List.reverse_append,
    List.dropWhile_append_of_pos fun c hc => hb c (List.mem_reverse.mp hc), trimRight]

lemma exists_blank_append_trimLeft (s : Text) :
    ∃ b, (∀ c ∈ b, isBlank c = true) ∧ b ++ trimLeft s = s :=
  ⟨s.takeWhile isBlank, fun _ => List.mem_takeWhile_imp, List.takeWhile_append_dropWhile⟩

lemma exists_trimRight_append_blank (s : Text) :
    ∃ b, (∀ c ∈ b, isBlank c = true) ∧ trimRight s ++ b = s := by
  refine ⟨(s.reverse.takeWhile isBlank).reverse, fun c hc => ?_, ?_⟩
  · exact List.mem_takeWhile_imp (List.mem_reverse.mp hc)
  · rw [trimRight, ← List.reverse_append, List.takeWhile_append_dropWhile, List.reverse_reverse]

end Lindenmayer.Text
