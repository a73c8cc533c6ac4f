import Lindenmayer.Text.Blank
import Lindenmayer.Text.Lines
import Mathlib.Data.List.Basic

/-! Texts without a break, and how a text of such lines is split and joined. -/

namespace Lindenmayer.Text

variable {γ : Type} [Coded γ] {c f : γ} {l s u : List γ}

def Inline (s : List γ) : Prop := ∀ c ∈ s, isBreak c = false

lemma Inline.of_subset (h : Inline s) (hu : u ⊆ s) : Inline u :=
  fun c hc => h c (hu hc)

lemma Inline.append (hs : Inline s) (hu : Inline u) : Inline (s ++ u) :=
  fun c hc => (List.mem_append.mp hc).elim (hs c) (hu c)

lemma inline_cons : Inline (c :: s) ↔ isBreak c = false ∧ Inline s := List.forall_mem_cons

lemma mem_intercalate {α : Type} {separator : List α} {ws : List (List α)} {c : α}
    (h : c ∈ separator.intercalate ws) : c ∈ separator ∨ ∃ w ∈ ws, c ∈ w := by
  induction ws with
  | nil => exact absurd h List.not_mem_nil
  | cons w ws ih =>
    cases ws with
    | nil =>
      rw [List.intercalate_singleton] at h
      exact .inr ⟨w, List.mem_cons_self, h⟩
    | cons w' ws =>
      rw [List.intercalate_cons_cons, List.mem_append, List.mem_append] at h
      rcases h with (h | h) | h
      · exact .inr ⟨w, List.mem_cons_self, h⟩
      · exact .inl h
      · exact (ih h).imp_right fun ⟨v, hv, hc⟩ => ⟨v, List.mem_cons_of_mem w hv, hc⟩

lemma isBlank_of_isBreak (h : isBreak c = true) : isBlank c = true := by
  simp only [isBreak, isBlank, Bool.or_eq_true, Bool.and_eq_true, decide_eq_true_eq,
    beq_iff_eq] at h ⊢
  omega

lemma isBreak_of_isFeed (hf : isFeed f = true) : isBreak f = true := by
  simp only [isFeed, beq_iff_eq] at hf
  simp [isBreak, hf]

lemma isBreak_of_isMute (h : isMute c s = true) : isBreak c = true := by
  simp only [isMute, Bool.and_eq_true, beq_iff_eq] at h
  simp [isBreak, h.1]

lemma not_isMute_of_isFeed (hf : isFeed f = true) (s : List γ) : isMute f s = false := by
  simp only [isFeed, beq_iff_eq] at hf
  simp [isMute, hf]

lemma isMute_append (c f : γ) (s u : List γ) : isMute c (s ++ f :: u) = isMute c (s ++ [f]) := by
  cases s <;> rfl

lemma isMute_append_of_isMute (h : isMute c s = true) (u : List γ) : isMute c (s ++ u) = true := by
  cases s with
  | nil => simp [isMute] at h
  | cons d s => exact h

lemma lines_cons_of_mute (h : isMute c s = true) : lines (c :: s) = lines s := if_pos h

lemma lines_cons_of_break (hmute : isMute c s = false) (h : isBreak c = true) :
    lines (c :: s) = [] :: lines s := by
  rw [lines, hmute, h]
  rfl

lemma lines_cons_of_isFeed (hf : isFeed f = true) (s : List γ) : lines (f :: s) = [] :: lines s :=
  lines_cons_of_break (not_isMute_of_isFeed hf s) (isBreak_of_isFeed hf)

/-- The ways in which a text goes on behind its first symbol. -/
lemma lines_cons_cases (c : γ) (s : List γ) :
    isMute c s = true ∧ lines (c :: s) = lines s ∨
    isMute c s = false ∧ isBreak c = true ∧ lines (c :: s) = [] :: lines s ∨
    isBreak c = false ∧ lines (c :: s) = consFirst c (lines s) := by
  cases hmute : isMute c s with
  | true => exact .inl ⟨rfl, lines_cons_of_mute hmute⟩
  | false =>
    cases hc : isBreak c with
    | true => exact .inr (.inl ⟨rfl, rfl, lines_cons_of_break hmute hc⟩)
    | false => exact .inr (.inr ⟨rfl, lines_cons_of_not_break s hc⟩)

lemma inline_of_mem_consFirst {ls : List (List γ)} (hc : isBreak c = false)
    (hls : ∀ l ∈ ls, Inline l) (h : l ∈ consFirst c ls) : Inline l := by
  cases ls with
  | nil =>
    obtain rfl := List.mem_singleton.mp h
    exact fun d hd => List.mem_singleton.mp hd ▸ hc
  | cons l' ls =>
    rcases List.mem_cons.mp h with rfl | h
    · intro d hd
      rcases List.mem_cons.mp hd with rfl | hd
      · exact hc
      · exact hls l' List.mem_cons_self d hd
    · exact hls l (List.mem_cons_of_mem l' h)

lemma inline_of_mem_lines (h : l ∈ lines s) : Inline l := by
  induction s generalizing l with
  | nil => exact absurd h List.not_mem_nil
  | cons c s ih =>
    obtain ⟨-, hlines⟩ | ⟨-, -, hlines⟩ | ⟨hc, hlines⟩ := lines_cons_cases c s
    · exact ih (hlines ▸ h)
    · rw [hlines] at h
      rcases List.mem_cons.mp h with rfl | h
      · exact fun c hc => absurd hc List.not_mem_nil
      · exact ih h
    · exact inline_of_mem_consFirst hc (fun _ => ih) (hlines ▸ h)

lemma lines_append_lineFeed (hf : isFeed f = true) (h : Inline l) (s : List γ) :
    lines (l ++ f :: s) = l :: lines s := by
  induction l with
  | nil => exact lines_cons_of_isFeed hf s
  | cons c l ih =>
    rw [List.cons_append, lines_cons_of_not_break _ (h c List.mem_cons_self),
      ih (h.of_subset (List.subset_cons_self c l))]
    rfl

lemma lines_of_inline (hne : l ≠ []) (h : Inline l) : lines l = [l] := by
  induction l with
  | nil => exact absurd rfl hne
  | cons c l ih =>
    rw [lines_cons_of_not_break _ (h c List.mem_cons_self)]
    by_cases hl : l = []
    · subst hl
      rfl
    · rw [ih hl (h.of_subset (List.subset_cons_self c l))]
      rfl

lemma lines_flatMap_lineFeed (hf : isFeed f = true) {ls : List (List γ)} (h : ∀ l ∈ ls, Inline l) :
    lines (ls.flatMap (· ++ [f])) = ls := by
  induction ls with
  | nil => rfl
  | cons l ls ih =>
    rw [List.flatMap_cons, List.append_assoc, List.singleton_append,
      lines_append_lineFeed hf (h l List.mem_cons_self),
      ih fun l' hl' => h l' (List.mem_cons_of_mem l hl')]

lemma lines_ne_nil (h : s ≠ []) : lines s ≠ [] := by
  induction s with
  | nil => exact absurd rfl h
  | cons c s ih =>
    obtain ⟨hmute, hlines⟩ | ⟨-, -, hlines⟩ | ⟨-, hlines⟩ := lines_cons_cases c s
    · rw [hlines]
      refine ih ?_
      rintro rfl
      simp [isMute] at hmute
    · rw [hlines]
      exact List.cons_ne_nil _ _
    · rw [hlines]
      cases lines s <;> exact List.cons_ne_nil _ _

omit [Coded γ] in
lemma consFirst_append (c : γ) {ls : List (List γ)} (h : ls ≠ []) (ms : List (List γ)) :
    consFirst c (ls ++ ms) = consFirst c ls ++ ms := by
  cases ls with
  | nil => exact absurd rfl h
  | cons l ls => rfl

/-- What is behind a line feed is split by itself. -/
lemma lines_append_cons (hf : isFeed f = true) (s u : List γ) :
    lines (s ++ f :: u) = lines (s ++ [f]) ++ lines u := by
  induction s with
  | nil => rw [List.nil_append, List.nil_append, lines_cons_of_isFeed hf, lines_cons_of_isFeed hf]; rfl
  | cons c s ih =>
    have hsame := isMute_append c f s u
    rw [List.cons_append, List.cons_append]
    obtain ⟨hmute, hlines⟩ | ⟨hmute, hc, hlines⟩ | ⟨hc, hlines⟩ := lines_cons_cases c (s ++ [f])
    · rw [hlines, lines_cons_of_mute (hsame.trans hmute), ih]
    · rw [hlines, lines_cons_of_break (hsame.trans hmute) hc, ih, List.cons_append]
    · rw [hlines, lines_cons_of_not_break _ hc, ih, consFirst_append c (lines_ne_nil (by simp))]

/-- A line feed at the end of a text ends its last line, or makes an empty one. -/
lemma exists_lines_append_singleton (hf : isFeed f = true) (s : List γ) :
    ∃ ls, (∀ l ∈ ls, l = []) ∧ lines (s ++ [f]) = lines s ++ ls := by
  have hnone : ∀ l ∈ ([] : List (List γ)), l = [] := fun _ hl => absurd hl List.not_mem_nil
  have hone : ∀ l ∈ [([] : List γ)], l = [] := fun _ hl => List.mem_singleton.mp hl
  induction s with
  | nil => exact ⟨[[]], hone, lines_cons_of_isFeed hf []⟩
  | cons c s ih =>
    obtain ⟨ls, hls, ih⟩ := ih
    rw [List.cons_append]
    obtain ⟨hmute, hlines⟩ | ⟨hmute, hc, hlines⟩ | ⟨hc, hlines⟩ := lines_cons_cases c s
    · rw [hlines, lines_cons_of_mute (isMute_append_of_isMute hmute [f])]
      exact ⟨ls, hls, ih⟩
    · rw [hlines]
      cases hfeed : isMute c (s ++ [f]) with
      | false =>
        rw [lines_cons_of_break hfeed hc, ih]
        exact ⟨ls, hls, rfl⟩
      | true =>
        -- A carriage return at the end goes with the line feed behind it.
        cases s with
        | nil =>
          rw [lines_cons_of_mute hfeed, List.nil_append, lines_cons_of_isFeed hf]
          exact ⟨[], hnone, rfl⟩
        | cons d s => exact absurd (hfeed.symm.trans hmute) (by decide)
    · rw [hlines, lines_cons_of_not_break _ hc, ih]
      by_cases hs : s = []
      · subst hs
        obtain rfl : ls = [[]] := ih.symm.trans (lines_cons_of_isFeed hf [])
        exact ⟨[], hnone, rfl⟩
      · exact ⟨ls, hls, consFirst_append c (lines_ne_nil hs) ls⟩

/-- A line feed between two texts ends the last line of the one, or makes an empty line. -/
lemma exists_lines_append_cons (hf : isFeed f = true) (s u : List γ) :
    ∃ ls, (∀ l ∈ ls, l = []) ∧ lines (s ++ f :: u) = lines s ++ ls ++ lines u := by
  obtain ⟨ls, hls, hlines⟩ := exists_lines_append_singleton hf s
  exact ⟨ls, hls, by rw [lines_append_cons hf, hlines]⟩

lemma joinLines_cons_cons (l l' : Text) (ls : List Text) :
    joinLines (l :: l' :: ls) = l ++ .char '\n' :: joinLines (l' :: ls) := by
  rw [joinLines, List.intercalate_cons_cons, List.append_assoc, List.singleton_append, joinLines]

lemma lines_joinLines {ls : List Text} (h : ∀ l ∈ ls, l ≠ [] ∧ Inline l) :
    lines (joinLines ls) = ls := by
  induction ls with
  | nil => rfl
  | cons l ls ih =>
    obtain ⟨hne, hl⟩ := h l List.mem_cons_self
    have htail := ih fun l' hl' => h l' (List.mem_cons_of_mem l hl')
    cases ls with
    | nil =>
      rw [joinLines, List.intercalate_singleton]
      exact lines_of_inline hne hl
    | cons l' ls =>
      rw [joinLines_cons_cons, lines_append_lineFeed rfl hl, htail]

lemma prefix_of_mem_head?_lines (h : l ∈ (lines s).head?) : l <+: s := by
  induction s generalizing l with
  | nil => cases h
  | cons c s ih =>
    obtain ⟨hmute, hlines⟩ | ⟨-, -, hlines⟩ | ⟨-, hlines⟩ := lines_cons_cases c s
    · -- The line feed that is next ends the line at once.
      cases s with
      | nil => simp [isMute] at hmute
      | cons d s =>
        have hd : isFeed d = true := (Bool.and_eq_true_iff.mp hmute).2
        rw [hlines, lines_cons_of_isFeed hd] at h
        exact Option.mem_some.mp h ▸ List.nil_prefix
    · rw [hlines] at h
      exact Option.mem_some.mp h ▸ List.nil_prefix
    · rw [hlines] at h
      cases hs : lines s with
      | nil =>
        rw [hs] at h
        exact Option.mem_some.mp h ▸ List.cons_prefix_cons.mpr ⟨rfl, List.nil_prefix⟩
      | cons l' ls =>
        rw [hs] at h ih
        exact Option.mem_some.mp h ▸ List.cons_prefix_cons.mpr ⟨rfl, ih rfl⟩

/-- The lines of a text are parts of it. -/
lemma infix_of_mem_lines (h : l ∈ lines s) : l <:+: s := by
  induction s generalizing l with
  | nil => exact absurd h List.not_mem_nil
  | cons c s ih =>
    obtain ⟨-, hlines⟩ | ⟨-, -, hlines⟩ | ⟨-, hlines⟩ := lines_cons_cases c s
    · exact List.infix_cons (ih (hlines ▸ h))
    · rw [hlines] at h
      obtain rfl | h := List.mem_cons.mp h
      · exact List.nil_infix
      · exact List.infix_cons (ih h)
    · have hhead {l : List γ} (hl : l ∈ (consFirst c (lines s)).head?) : l <:+: c :: s :=
        (prefix_of_mem_head?_lines (hlines ▸ hl)).isInfix
      rw [hlines] at h
      cases hs : lines s with
      | nil =>
        rw [hs] at h hhead
        obtain rfl := List.mem_singleton.mp h
        exact hhead rfl
      | cons l' ls =>
        rw [hs] at h hhead ih
        obtain rfl | h := List.mem_cons.mp h
        · exact hhead rfl
        · exact List.infix_cons (ih (List.mem_cons_of_mem l' h))

end Lindenmayer.Text
