import Lindenmayer.Proofs.Rules.RoundTrip

/-! The arrow of a rule. A text is cut at its first arrow, and what is left of the two sides without the
blanks about the arrow is what the first match of a pattern leaves: blanks, an arrow, and blanks. -/

namespace Lindenmayer.Rules

open Text

/-- A text cut at its first arrow. -/
structure FirstArrow (s left right : Text) : Prop where
  eq : s = left ++ .char '-' :: .char '>' :: right
  first : ∀ l r, s = l ++ .char '-' :: .char '>' :: r → left.length ≤ l.length

namespace FirstArrow

variable {s left right left' right' : Text}

lemma unique (h : FirstArrow s left right) (h' : FirstArrow s left' right') :
    left = left' ∧ right = right' := by
  have hlength := Nat.le_antisymm (h.first _ _ h'.eq) (h'.first _ _ h.eq)
  obtain ⟨hleft, hright⟩ := List.append_inj (h.eq.symm.trans h'.eq) hlength
  exact ⟨hleft, by simpa using hright⟩

lemma of_splitArrow (h : splitArrow s = some (left, right)) : FirstArrow s left right := by
  refine ⟨eq_of_splitArrow h, fun l r hs => ?_⟩
  induction s using splitArrow.induct generalizing left l with
  | case1 => cases h
  | case2 s =>
    cases h
    exact Nat.zero_le _
  | case3 c s harrow ih =>
    rw [splitArrow, Option.map_eq_some_iff] at h
    · obtain ⟨⟨left', _⟩, hs', hleft⟩ := h
      obtain ⟨rfl, rfl⟩ := Prod.mk.inj hleft
      cases l with
      | nil =>
        obtain ⟨hc, hrest⟩ := List.cons.inj hs
        exact (harrow r hc hrest).elim
      | cons d l => exact Nat.succ_le_succ (ih hs' l (List.cons.inj hs).2)
    · exact harrow

end FirstArrow

lemma splitArrow_ne_none (l r : Text) : splitArrow (l ++ .char '-' :: .char '>' :: r) ≠ none := by
  induction l with
  | nil => exact Option.some_ne_none _
  | cons c l ih =>
    rw [List.cons_append, splitArrow.eq_def]
    split
    · exact absurd ‹_› (List.cons_ne_nil _ _)
    · exact Option.some_ne_none _
    · next hcons =>
      obtain ⟨-, rfl⟩ := List.cons.inj hcons
      exact mt Option.map_eq_none_iff.mp ih

lemma splitArrow_eq_some_iff {s left right : Text} :
    splitArrow s = some (left, right) ↔ FirstArrow s left right := by
  refine ⟨.of_splitArrow, fun h => ?_⟩
  cases hs : splitArrow s with
  | none =>
    rw [h.eq] at hs
    exact absurd hs (splitArrow_ne_none left right)
  | some p =>
    obtain ⟨rfl, rfl⟩ := h.unique (.of_splitArrow hs)
    rfl

lemma splitArrow_eq_none_iff {s : Text} : splitArrow s = none ↔ ¬ (['-', '>'] : Text) <:+: s := by
  constructor
  · rintro hs ⟨l, r, rfl⟩
    rw [List.append_assoc] at hs
    exact splitArrow_ne_none l r hs
  · intro hs
    cases hsplit : splitArrow s with
    | none => rfl
    | some p =>
      refine absurd ⟨p.1, p.2, ?_⟩ hs
      rw [eq_of_splitArrow hsplit, List.append_assoc]
      rfl

/-- A text cut at the first match of a pattern: an arrow, with all the blanks about it. -/
structure ArrowMatch (s left right : Text) : Prop where
  eq : ∃ before after, (∀ c ∈ before, isBlank c = true) ∧ (∀ c ∈ after, isBlank c = true) ∧
    s = left ++ before ++ .char '-' :: .char '>' :: (after ++ right)
  first : ∀ l before r, (∀ c ∈ before, isBlank c = true) →
    s = l ++ before ++ .char '-' :: .char '>' :: r → left.length ≤ l.length
  longest : ∀ c ∈ right.head?, isBlank c = false

/-- The first match begins with the blanks in front of the first arrow. -/
lemma FirstArrow.arrowMatch {s left right : Text} (h : FirstArrow s left right) :
    ArrowMatch s (trimRight left) (trimLeft right) := by
  obtain ⟨before, hbefore, hleft⟩ := exists_trimRight_append_blank left
  obtain ⟨after, hafter, hright⟩ := exists_blank_append_trimLeft right
  refine ⟨⟨before, after, hbefore, hafter, by rw [hleft, hright, h.eq]⟩, ?first,
    fun c => not_isBlank_head_trimLeft⟩
  intro l b r hb hs
  have hle : left.length ≤ (l ++ b).length := h.first _ _ hs
  obtain ⟨t, ht⟩ : left <+: l ++ b :=
    List.prefix_of_prefix_length_le ⟨_, h.eq.symm⟩ ⟨_, hs.symm⟩ hle
  rcases List.append_eq_append_iff.mp ht with ⟨b', rfl, -⟩ | ⟨b', rfl, rfl⟩
  · exact (trimRight_isPrefix left).length_le.trans (List.prefix_append left b').length_le
  · rw [trimRight_append l fun c hc => hb c (List.mem_append_left t hc)]
    exact (trimRight_isPrefix l).length_le

lemma ArrowMatch.unique {s left right left' right' : Text} (h : ArrowMatch s left right)
    (h' : ArrowMatch s left' right') : left = left' ∧ right = right' := by
  obtain ⟨before, after, hbefore, hafter, hs⟩ := h.eq
  obtain ⟨before', after', hbefore', hafter', hs'⟩ := h'.eq
  have hlength := Nat.le_antisymm (h.first _ _ _ hbefore' hs') (h'.first _ _ _ hbefore hs)
  rw [hs, List.append_assoc, List.append_assoc] at hs'
  obtain ⟨hleft, hrest⟩ := List.append_inj hs' hlength
  have hdash : ∀ u, trimLeft (.char '-' :: u) = .char '-' :: u :=
    fun u => List.dropWhile_cons_of_neg (by decide)
  have harrow := congrArg trimLeft hrest
  rw [trimLeft_append hbefore, trimLeft_append hbefore', hdash, hdash] at harrow
  have hblank := congrArg trimLeft (List.cons.inj (List.cons.inj harrow).2).2
  rw [trimLeft_append hafter, trimLeft_append hafter', trimLeft_eq_self h.longest,
    trimLeft_eq_self h'.longest] at hblank
  exact ⟨hleft, hblank⟩

/-- A rule is cut where the pattern first matches. -/
theorem arrowMatch_iff {s left right : Text} :
    ArrowMatch s left right ↔
      ∃ l r, splitArrow s = some (l, r) ∧ left = trimRight l ∧ right = trimLeft r := by
  constructor
  · intro h
    obtain ⟨before, after, -, -, hs⟩ := h.eq
    cases hsplit : splitArrow s with
    | none =>
      rw [hs] at hsplit
      exact absurd hsplit (splitArrow_ne_none _ _)
    | some p =>
      have hmatch := (FirstArrow.of_splitArrow hsplit).arrowMatch
      exact ⟨p.1, p.2, rfl, h.unique hmatch⟩
  · rintro ⟨l, r, hsplit, rfl, rfl⟩
    exact (FirstArrow.of_splitArrow hsplit).arrowMatch

end Lindenmayer.Rules
