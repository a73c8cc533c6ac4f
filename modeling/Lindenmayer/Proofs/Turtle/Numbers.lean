import Lindenmayer.Proofs.Turtle.Enclosure

/-! Turtles that come to numbers only. A turtle comes to no place that its drawing leaves out, and so a
drawing all whose points are numbers lies in its box. -/

namespace Lindenmayer

def Point.IsNumber (p : Point Float) : Prop := p.1.isNaN = false ∧ p.2.isNaN = false

def Point.IsFinite (p : Point Float) : Prop := p.1.isFinite = true ∧ p.2.isFinite = true

namespace Walk

variable {α : Type} [Add α] [Sub α] [LT α] [DecidableLT α] [Compass α]
variable {turn : α} {s s₁ s₂ : Walk α} {c : Command} {cs front : List Command}

lemma Step.saved_positions (h : Step turn s c s₁) (hs : s.saved.map Pose.position ⊆ s.trail) :
    s₁.saved.map Pose.position ⊆ s₁.trail := by
  intro p hp
  obtain ⟨q, hq, rfl⟩ := List.mem_map.mp hp
  rw [h.trail_eq, List.mem_append, List.mem_singleton]
  rcases List.mem_cons.mp (h.saved_subset hq) with rfl | hq
  · exact .inr rfl
  · exact .inl (hs (List.mem_map_of_mem hq))

lemma Step.position_mem (h : Step turn s c s₁) (hs : s.saved.map Pose.position ⊆ s.trail) :
    s₁.pose.position ∈ s₁.drawing.points := by
  by_cases hc : c = .restore
  · apply s₁.trail_subset_points
    rw [h.trail_eq]
    apply List.mem_append_left
    subst hc
    cases h with
    | restore hsaved =>
      apply hs
      rw [hsaved]
      exact List.mem_cons_self
  · rw [points_drawing, if_neg (mt h.path_eq_nil_iff.mp hc)]
    simp

namespace Run

lemma saved_positions (h : Run turn s cs s₁) (hs : s.saved.map Pose.position ⊆ s.trail) :
    s₁.saved.map Pose.position ⊆ s₁.trail := by
  induction h with
  | nil => exact hs
  | cons hstep _ ih => exact ih (hstep.saved_positions hs)

lemma trail_subset (h : Run turn s cs s₁) : s.trail ⊆ s₁.trail := by
  induction h with
  | nil => exact List.Subset.refl _
  | cons hstep _ ih =>
    rw [hstep.trail_eq] at ih
    exact List.Subset.trans (List.subset_append_left _ _) ih

/-- Wherever a turtle stands on its way, there is a point. -/
lemma position_mem (h : Run turn s cs s₁) (hs : s.saved.map Pose.position ⊆ s.trail) (hcs : cs ≠ [])
    (hfront : front <+: cs) (h₂ : Run turn s front s₂) : s₂.pose.position ∈ s₁.drawing.points := by
  obtain ⟨rest, rfl⟩ := hfront
  obtain ⟨s', h', hrest⟩ := h.of_append
  obtain rfl := h'.unique h₂
  cases hrest with
  | nil =>
    rw [List.append_nil] at hcs
    obtain ⟨init, c, rfl⟩ := (List.eq_nil_or_concat' front).resolve_left hcs
    obtain ⟨s₀, hinit, hlast⟩ := h'.of_append
    cases hlast with
    | cons hstep hnil =>
      cases hnil
      exact hstep.position_mem (hinit.saved_positions hs)
  | cons hstep hrun =>
    apply s₁.trail_subset_points
    apply hrun.trail_subset
    rw [hstep.trail_eq]
    simp

variable [OfNat α 0]

lemma tight_points (h : Run turn .start cs s) (hcs : cs ≠ []) : s.bounds.Tight s.drawing.points := by
  refine (h.tight ?_).resolve_left hcs
  exact ⟨⟨_, List.mem_cons_self, rfl⟩, ⟨_, List.mem_cons_self, rfl⟩, ⟨_, List.mem_cons_self, rfl⟩,
    ⟨_, List.mem_cons_self, rfl⟩⟩

variable [LE α] [DecidableLE α] {number : α → Prop}

lemma contains_of_numbers (h : Run turn .start cs s) (order : TotalOn number) (h₀ : number 0)
    (hcs : cs ≠ []) (hpoints : ∀ p ∈ s.drawing.points, number p.1 ∧ number p.2) :
    ∀ p ∈ s.drawing.points, s.bounds.contains p = true := by
  have henclosed : s.Enclosed number := by
    refine h.enclosed order (fun front s' hfront h' => ?_) (enclosed_start order h₀)
    exact hpoints _ (h.position_mem (List.nil_subset _) hcs hfront h')
  intro p hp
  apply henclosed.contains p
  rcases List.mem_cons.mp (s.points_subset hp) with rfl | hp
  · exact mem_stops.mpr (.inr (.inl rfl))
  · exact mem_stops.mpr (.inr (.inr (.inr hp)))

end Run

end Walk

end Lindenmayer
