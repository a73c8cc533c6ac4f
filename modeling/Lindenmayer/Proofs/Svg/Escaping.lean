import Lindenmayer.Svg.Document
import Mathlib.Data.List.Basic
import Mathlib.Data.List.Infix

/-! Escaped text. The three substitutions in turn are one map of the characters, and what they put in is
resolved again in one pass from left to right. -/

namespace Lindenmayer.Svg

/-- What stands for a character in an escaped text. -/
def escapeChar (c : Char) : List Char :=
  if c = '&' then "&amp;".toList
  else if c = '<' then "&lt;".toList
  else if c = '>' then "&gt;".toList
  else [c]

lemma escapeChar_of_ne {c : Char} (h : c ≠ '&' ∧ c ≠ '<' ∧ c ≠ '>') : escapeChar c = [c] := by
  simp [escapeChar, h]

lemma substitute_append (c : Char) (replacement s t : List Char) :
    substitute c replacement (s ++ t) = substitute c replacement s ++ substitute c replacement t :=
  List.flatMap_append

lemma escapeTitle_append (s t : List Char) : escapeTitle (s ++ t) = escapeTitle s ++ escapeTitle t := by
  simp only [escapeTitle, substitute_append]

lemma escapeTitle_singleton (c : Char) : escapeTitle [c] = escapeChar c := by
  by_cases hamp : c = '&'
  · subst hamp
    rfl
  · by_cases hlt : c = '<'
    · subst hlt
      rfl
    · by_cases hgt : c = '>'
      · subst hgt
        rfl
      · simp [escapeTitle, substitute, escapeChar_of_ne, hamp, hlt, hgt]

lemma escapeTitle_cons (c : Char) (s : List Char) :
    escapeTitle (c :: s) = escapeChar c ++ escapeTitle s := by
  rw [← List.singleton_append, escapeTitle_append, escapeTitle_singleton]

/-- The later substitutions leave alone what the earlier ones put in. -/
lemma escapeTitle_eq_flatMap (s : List Char) : escapeTitle s = s.flatMap escapeChar := by
  induction s with
  | nil => rfl
  | cons c s ih => rw [escapeTitle_cons, ih, List.flatMap_cons]

lemma notMem_escapeTitle {c : Char} (hc : c = '<' ∨ c = '>') (s : List Char) :
    c ∉ escapeTitle s := by
  rw [escapeTitle_eq_flatMap]
  intro h
  obtain ⟨d, -, h⟩ := List.mem_flatMap.mp h
  unfold escapeChar at h
  split at h
  · rcases hc with rfl | rfl <;> exact absurd h (by decide)
  · split at h
    · rcases hc with rfl | rfl <;> exact absurd h (by decide)
    · split at h
      · rcases hc with rfl | rfl <;> exact absurd h (by decide)
      · next hlt hgt =>
        obtain rfl := List.mem_singleton.mp h
        exact hc.elim hlt hgt

def entities : List (List Char) := ["&amp;".toList, "&lt;".toList, "&gt;".toList]

/-- A character stands for itself, or an entity for it whose only ampersand is in front. -/
lemma escapeChar_eq_or (c : Char) :
    escapeChar c = [c] ∧ c ≠ '&' ∨
      ∃ name, escapeChar c = '&' :: name ∧ '&' ∉ name ∧ '&' :: name ∈ entities := by
  by_cases hamp : c = '&'
  · subst hamp
    exact .inr ⟨"amp;".toList, rfl, by decide, by decide⟩
  · by_cases hlt : c = '<'
    · subst hlt
      exact .inr ⟨"lt;".toList, rfl, by decide, by decide⟩
    · by_cases hgt : c = '>'
      · subst hgt
        exact .inr ⟨"gt;".toList, rfl, by decide, by decide⟩
      · exact .inl ⟨escapeChar_of_ne ⟨hamp, hlt, hgt⟩, hamp⟩

lemma suffix_of_notMem {c : Char} {front s rest : List Char} (hc : c ∉ front)
    (h : c :: rest <:+ front ++ s) : c :: rest <:+ s := by
  induction front with
  | nil => exact h
  | cons d front ih =>
    obtain ⟨hd, hfront⟩ := not_or.mp (mt List.mem_cons.mpr hc)
    rcases List.suffix_cons_iff.mp h with heq | h
    · exact absurd (List.cons.inj heq).1 hd
    · exact ih hfront h

/-- Every ampersand of an escaped text begins an entity. -/
lemma exists_entity_of_suffix {s rest : List Char} (h : '&' :: rest <:+ escapeTitle s) :
    ∃ e ∈ entities, e <+: '&' :: rest := by
  induction s with
  | nil => exact absurd (List.suffix_nil.mp h) (List.cons_ne_nil _ _)
  | cons c s ih =>
    rw [escapeTitle_cons] at h
    rcases escapeChar_eq_or c with ⟨hc, hne⟩ | ⟨name, hc, hname, hentity⟩
    · rw [hc, List.singleton_append] at h
      rcases List.suffix_cons_iff.mp h with heq | h
      · exact absurd (List.cons.inj heq).1.symm hne
      · exact ih h
    · rw [hc] at h
      rcases List.suffix_cons_iff.mp h with heq | h
      · exact ⟨_, hentity, heq ▸ List.prefix_append _ _⟩
      · exact ih (suffix_of_notMem hname h)

/-- Resolves the entities from left to right. -/
def unescape : List Char → List Char
  | '&' :: 'a' :: 'm' :: 'p' :: ';' :: s => '&' :: unescape s
  | '&' :: 'l' :: 't' :: ';' :: s => '<' :: unescape s
  | '&' :: 'g' :: 't' :: ';' :: s => '>' :: unescape s
  | c :: s => c :: unescape s
  | [] => []

lemma unescape_cons {c : Char} (h : c ≠ '&') (s : List Char) :
    unescape (c :: s) = c :: unescape s := by
  rw [unescape]
  all_goals exact fun _ hc => absurd hc h

lemma unescape_escapeChar (c : Char) (s : List Char) :
    unescape (escapeChar c ++ s) = c :: unescape s := by
  by_cases hamp : c = '&'
  · subst hamp
    rfl
  · by_cases hlt : c = '<'
    · subst hlt
      rfl
    · by_cases hgt : c = '>'
      · subst hgt
        rfl
      · rw [escapeChar_of_ne ⟨hamp, hlt, hgt⟩]
        exact unescape_cons hamp s

lemma unescape_escapeTitle (s : List Char) : unescape (escapeTitle s) = s := by
  induction s with
  | nil => rfl
  | cons c s ih => rw [escapeTitle_cons, unescape_escapeChar, ih]

end Lindenmayer.Svg
