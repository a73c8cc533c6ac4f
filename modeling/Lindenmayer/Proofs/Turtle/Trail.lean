import Lindenmayer.Proofs.Turtle.Run

/-! The positions that a walk records, one before each command, and how the paths of its drawing hold
them: in their order, with the place where the turtle stands behind them if a path is open. -/

namespace Lindenmayer

def Drawing.points {α : Type} (d : Drawing α) : List (Point α) := d.paths.flatten

/-- The points without the one that closes the drawing, which there is none of after a restored
pose. -/
def Drawing.recorded {α : Type} (d : Drawing α) (cs : List Command) : List (Point α) :=
  if cs.getLast? = some .restore then d.points else d.points.dropLast

namespace Walk

variable {α : Type}

def trail (s : Walk α) : List (Point α) := s.closed.reverse.flatten ++ s.path.reverse

lemma points_drawing (s : Walk α) :
    s.drawing.points = if s.path = [] then s.trail else s.trail ++ [s.pose.position] := by
  unfold Drawing.points drawing paths trail
  cases s.path with
  | nil => simp
  | cons p ps => simp

lemma trail_subset_points (s : Walk α) : s.trail ⊆ s.drawing.points := by
  rw [points_drawing]
  split
  · exact List.Subset.refl _
  · exact List.subset_append_left _ _

lemma points_subset (s : Walk α) : s.drawing.points ⊆ s.pose.position :: s.trail := by
  intro p hp
  rw [points_drawing] at hp
  split at hp
  · exact List.mem_cons_of_mem _ hp
  · rcases List.mem_append.mp hp with hp | hp
    · exact List.mem_cons_of_mem _ hp
    · exact List.mem_cons.mpr (.inl (List.mem_singleton.mp hp))

lemma length_paths (s : Walk α) :
    s.paths.length = s.closed.length + if s.path = [] then 0 else 1 := by
  unfold paths
  cases s.path with
  | nil => simp
  | cons p ps => simp

variable [Add α] [Sub α] [LT α] [DecidableLT α] [Compass α]
variable {turn : α} {s s₁ : Walk α} {c : Command} {cs : List Command}

lemma Step.trail_eq (h : Step turn s c s₁) : s₁.trail = s.trail ++ [s.pose.position] := by
  cases h <;> simp [trail, mark, face, moveTo]

lemma Step.path_eq_nil_iff (h : Step turn s c s₁) : s₁.path = [] ↔ c = .restore := by
  cases h <;> simp [mark, face, moveTo]

lemma Step.path_eq (h : Step turn s c s₁) (hc : c ≠ .restore) :
    s₁.path = s.pose.position :: s.path := by
  cases h with
  | idle | left | right | save | forward => rfl
  | restore _ => exact absurd rfl hc

lemma Step.closed_eq (h : Step turn s c s₁) (hc : c ≠ .restore) : s₁.closed = s.closed := by
  cases h with
  | idle | left | right | save | forward => rfl
  | restore _ => exact absurd rfl hc

lemma Step.closed_of_restore (h : Step turn s .restore s₁) :
    s₁.closed = (s.path.reverse ++ [s.pose.position]) :: s.closed := by
  cases h with
  | restore _ => simp [mark]

lemma Step.length_closed (h : Step turn s c s₁) :
    s₁.closed.length = s.closed.length + [c].count .restore := by
  cases h <;> simp [mark, face, moveTo]

namespace Run

lemma path_eq_nil_iff (h : Run turn s cs s₁) (hcs : cs ≠ []) :
    s₁.path = [] ↔ cs.getLast? = some .restore := by
  obtain ⟨front, c, rfl⟩ := (List.eq_nil_or_concat' cs).resolve_left hcs
  obtain ⟨s', -, hlast⟩ := h.of_append
  cases hlast with
  | cons hs hnil =>
    cases hnil
    rw [hs.path_eq_nil_iff, List.getLast?_concat, Option.some_inj]

lemma length_closed (h : Run turn s cs s₁) :
    s₁.closed.length = s.closed.length + cs.count .restore := by
  induction h with
  | nil => rfl
  | @cons s s₁ s₂ c cs hstep _ ih =>
    rw [ih, hstep.length_closed, show c :: cs = [c] ++ cs from rfl, List.count_append, Nat.add_assoc]

lemma length_paths_drawing [OfNat α 0] (h : Run turn .start cs s) :
    s.drawing.paths.length =
      cs.count .restore + if cs ≠ [] ∧ cs.getLast? ≠ some .restore then 1 else 0 := by
  change s.paths.length = _
  have hclosed : s.closed.length = cs.count .restore :=
    h.length_closed.trans (Nat.zero_add _)
  rw [length_paths, hclosed]
  by_cases hcs : cs = []
  · subst hcs
    cases h
    rfl
  · simp [h.path_eq_nil_iff hcs, hcs]

lemma recorded_drawing [OfNat α 0] (h : Run turn .start cs s) :
    s.drawing.recorded cs = s.trail := by
  by_cases hcs : cs = []
  · subst hcs
    cases h
    rfl
  · unfold Drawing.recorded
    rw [points_drawing]
    by_cases hlast : cs.getLast? = some .restore
    · rw [if_pos hlast, if_pos ((h.path_eq_nil_iff hcs).mpr hlast)]
    · rw [if_neg hlast, if_neg (mt (h.path_eq_nil_iff hcs).mp hlast), List.dropLast_concat]

end Run

end Walk

end Lindenmayer
