import Lindenmayer.Proofs.Turtle.Branch
import Lindenmayer.Proofs.Turtle.Numbers

/-! Walks that go on. A walk keeps the paths that it has closed, and whatever becomes of the open one
begins with what is drawn of it. So the drawing of the front of a word is the beginning of the drawing
of the word, but for the point that closes it where a path is open. -/

namespace Lindenmayer

/-- What has been drawn of `d'` with its first `closed` paths finished. The last point of a path that
is still open stands for the turtle. -/
structure Drawing.Begins {α : Type} [LE α] (closed : ℕ) (d d' : Drawing α) : Prop where
  inside : d.bounds.Inside d'.bounds
  closed_le : closed ≤ d.paths.length
  le_closed : d.paths.length ≤ closed + 1
  closed_path : ∀ i < closed, d.paths[i]? = d'.paths[i]?
  open_path : ∀ path, d.paths[closed]? = some path →
    ∃ front path', path = front ++ [d.turtle.position] ∧ d'.paths[closed]? = some path' ∧
      front <+: path'

namespace Walk

variable {α : Type} {turn : α} {s s₁ s₂ : Walk α} {c : Command} {cs : List Command}

lemma paths_eq (s : Walk α) :
    s.paths = s.closed.reverse ++
      if s.path = [] then [] else [s.path.reverse ++ [s.pose.position]] := by
  unfold paths
  cases s.path with
  | nil => simp
  | cons p ps => simp

inductive Continues (s s₁ : Walk α) : Prop
  | within : s₁.closed = s.closed → s.path <:+ s₁.path → Continues s s₁
  | beyond {path more} : s₁.closed = more ++ path :: s.closed → s.path.reverse <+: path →
      Continues s s₁

namespace Continues

lemma trans (h₁ : Continues s s₁) (h₂ : Continues s₁ s₂) : Continues s s₂ := by
  cases h₁ with
  | within hclosed₁ hpath₁ =>
    cases h₂ with
    | within hclosed₂ hpath₂ => exact .within (hclosed₂.trans hclosed₁) (hpath₁.trans hpath₂)
    | beyond hclosed₂ hpath₂ =>
      exact .beyond (hclosed₁ ▸ hclosed₂) ((List.reverse_prefix.mpr hpath₁).trans hpath₂)
  | @beyond path more hclosed₁ hpath₁ =>
    cases h₂ with
    | within hclosed₂ _ => exact .beyond (hclosed₂.trans hclosed₁) hpath₁
    | @beyond path₂ more₂ hclosed₂ _ =>
      have hclosed : s₂.closed = (more₂ ++ path₂ :: more) ++ path :: s.closed := by
        rw [hclosed₂, hclosed₁, List.append_assoc, List.cons_append]
      exact .beyond hclosed hpath₁

/-- The path that is open is found again behind the closed ones. -/
lemma paths (h : Continues s s₁) (hs : s.path ≠ []) :
    ∃ path rest, s₁.paths = s.closed.reverse ++ path :: rest ∧ s.path.reverse <+: path := by
  rw [paths_eq]
  cases h with
  | within hclosed hpath =>
    have hopen : s₁.path ≠ [] := fun hnil => hs (List.suffix_nil.mp (hnil ▸ hpath))
    refine ⟨s₁.path.reverse ++ [s₁.pose.position], [], by rw [hclosed, if_neg hopen], ?_⟩
    exact (List.reverse_prefix.mpr hpath).trans (List.prefix_append _ _)
  | @beyond path more hclosed hpath =>
    refine ⟨path, more.reverse ++ if s₁.path = [] then [] else [s₁.path.reverse ++ [s₁.pose.position]],
      ?_, hpath⟩
    rw [hclosed]
    simp

lemma closed_isPrefix (h : Continues s s₁) : s.closed.reverse <+: s₁.paths := by
  rw [paths_eq]
  refine List.IsPrefix.trans ?_ (List.prefix_append _ _)
  cases h with
  | within hclosed _ => rw [hclosed]
  | beyond hclosed _ =>
    rw [hclosed]
    exact ⟨_, by simp [List.append_assoc]; rfl⟩

/-- The closed paths are the first ones of both drawings. -/
lemma begins [LE α] (h : Continues s s₁) (hinside : s.bounds.Inside s₁.bounds) :
    s.drawing.Begins s.closed.length s₁.drawing where
  inside := hinside
  closed_le := by
    change _ ≤ s.paths.length
    rw [length_paths]
    omega
  le_closed := by
    change s.paths.length ≤ _
    rw [length_paths]
    split <;> omega
  closed_path i hi := by
    obtain ⟨rest, hrest⟩ := h.closed_isPrefix
    have hi' : i < s.closed.reverse.length := by rwa [List.length_reverse]
    change s.paths[i]? = s₁.paths[i]?
    rw [paths_eq, ← hrest, List.getElem?_append_left hi', List.getElem?_append_left hi']
  open_path path hpath := by
    change s.paths[s.closed.length]? = some path at hpath
    rw [paths_eq, ← List.length_reverse, List.getElem?_append_right le_rfl, Nat.sub_self] at hpath
    by_cases hs : s.path = []
    · rw [if_pos hs] at hpath
      cases hpath
    · rw [if_neg hs] at hpath
      obtain ⟨path', rest, hpaths, hfront⟩ := h.paths hs
      refine ⟨s.path.reverse, path', (Option.some.inj hpath).symm, ?_, hfront⟩
      change s₁.paths[s.closed.length]? = some path'
      rw [hpaths, ← List.length_reverse, List.getElem?_append_right le_rfl, Nat.sub_self]
      rfl

end Continues

variable [Add α] [Sub α] [LT α] [DecidableLT α] [Compass α]

lemma Step.continues (h : Step turn s c s₁) : Continues s s₁ := by
  have hmark : s.path <:+ s.mark.path := List.suffix_cons _ _
  cases h with
  | idle | left | right | save | forward => exact .within rfl hmark
  | restore _ =>
    have hclosed : s.mark.path.reverse :: s.closed = [] ++ s.mark.path.reverse :: s.closed := rfl
    exact .beyond hclosed (List.reverse_prefix.mpr hmark)

lemma Run.continues (h : Run turn s cs s₁) : Continues s s₁ := by
  induction h with
  | nil => exact .within rfl (List.suffix_refl _)
  | cons hstep _ ih => exact hstep.continues.trans ih

lemma Run.points_subset_of_isPrefix [OfNat α 0] {front : List Command} (hfront : front <+: cs)
    (h : Run turn .start cs s₁) (h₂ : Run turn .start front s₂) :
    s₂.drawing.points ⊆ s₁.drawing.points := by
  obtain ⟨rest, rfl⟩ := hfront
  obtain ⟨s', h', hrest⟩ := h.of_append
  obtain rfl := h'.unique h₂
  by_cases hcs : front ++ rest = []
  · obtain ⟨rfl, rfl⟩ := List.append_eq_nil_iff.mp hcs
    rw [h₂.unique h]
    exact List.Subset.refl _
  · intro p hp
    rcases List.mem_cons.mp (s'.points_subset hp) with rfl | hp
    · exact h.position_mem (List.nil_subset _) hcs (List.prefix_append _ _) h₂
    · exact s₁.trail_subset_points (hrest.trail_subset hp)

end Walk

/-- The front of a word is drawn wherever the word is, and as the beginning of the same drawing. -/
lemma trace_of_isPrefix {v w : Word} {angle : Float} {d' : Drawing Float} (hvw : v <+: w)
    (h : trace w.commands angle = .ok d') :
    ∃ d, trace v.commands angle = .ok d ∧ d.points ⊆ d'.points ∧
      d.Begins (v.count (.char ']')) d' := by
  obtain ⟨s₁, hrun, rfl⟩ := draw_eq_ok_iff.mp h
  have hcommands : v.commands <+: w.commands := hvw.map _
  obtain ⟨rest, hrest⟩ := hcommands
  obtain ⟨s, hv, hgo⟩ := (hrest ▸ hrun).of_append
  have hstart : (Walk.start : Walk Float).bounds.Numeric fun x => x.isNaN = false :=
    ⟨rfl, rfl, rfl, rfl⟩
  obtain ⟨hs, -⟩ := hv.bounds_inside Binary64.totalOn Binary64.strict hstart
  have hinside := (hgo.bounds_inside Binary64.totalOn Binary64.strict hs).2
  have hclosed : s.closed.length = v.count (.char ']') := by
    rw [hv.length_closed, Word.count_restore]
    exact Nat.zero_add _
  refine ⟨s.drawing, draw_eq_ok_iff.mpr ⟨s, hv, rfl⟩, ?_, ?_⟩
  · exact hrun.points_subset_of_isPrefix ⟨rest, hrest⟩ hv
  · rw [← hclosed]
    exact hgo.continues.begins hinside

end Lindenmayer
