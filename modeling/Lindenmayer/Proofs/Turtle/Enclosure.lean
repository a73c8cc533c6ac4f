import Lindenmayer.Proofs.Binary64.Order
import Lindenmayer.Proofs.Turtle.Box
import Lindenmayer.Proofs.Turtle.Trail
import Lindenmayer.Turtle.Curve
import Mathlib.Data.List.Infix

/-! The box of a drawing is the smallest one around its points. It grows with steps forward only, but
a turtle comes to no place otherwise that it has not been to before: one that restores a pose stands
at a stop again. -/

namespace Lindenmayer

namespace Walk

variable {α : Type} [OfNat α 0]

def stops (s : Walk α) : List (Point α) :=
  (0, 0) :: s.pose.position :: (s.saved.map Pose.position ++ s.trail)

lemma mem_stops {s : Walk α} {p : Point α} :
    p ∈ s.stops ↔ p = (0, 0) ∨ p = s.pose.position ∨ p ∈ s.saved.map Pose.position ∨
      p ∈ s.trail := by
  simp [stops]

variable [Add α] [Sub α] [LT α] [DecidableLT α] [Compass α]
variable {turn : α} {s s₁ : Walk α} {c : Command} {cs : List Command}

lemma Step.bounds_eq_or (h : Step turn s c s₁) :
    (s₁.bounds = s.bounds ∧ s₁.pose.position ∈ s.stops) ∨
      (c = .forward ∧ s₁.bounds = s.bounds.grow s₁.pose.position) := by
  cases h with
  | idle | left | right | save => exact .inl ⟨rfl, mem_stops.mpr (.inr (.inl rfl))⟩
  | restore hs =>
    refine .inl ⟨rfl, mem_stops.mpr (.inr (.inr (.inl ?_)))⟩
    rw [hs]
    exact List.mem_cons_self
  | forward => exact .inr ⟨rfl, rfl⟩

lemma Step.stops_subset (h : Step turn s c s₁) : s₁.stops ⊆ s₁.pose.position :: s.stops := by
  intro p hp
  rcases mem_stops.mp hp with rfl | rfl | hp | hp
  · exact List.mem_cons_of_mem _ (mem_stops.mpr (.inl rfl))
  · exact List.mem_cons_self
  · obtain ⟨q, hq, rfl⟩ := List.mem_map.mp hp
    rcases List.mem_cons.mp (h.saved_subset hq) with rfl | hq
    · exact List.mem_cons_of_mem _ (mem_stops.mpr (.inr (.inl rfl)))
    · exact List.mem_cons_of_mem _ (mem_stops.mpr (.inr (.inr (.inl (List.mem_map_of_mem hq)))))
  · rw [h.trail_eq, List.mem_append, List.mem_singleton] at hp
    rcases hp with hp | rfl
    · exact List.mem_cons_of_mem _ (mem_stops.mpr (.inr (.inr (.inr hp))))
    · exact List.mem_cons_of_mem _ (mem_stops.mpr (.inr (.inl rfl)))

structure Enclosed [LE α] [DecidableLE α] (number : α → Prop) (s : Walk α) : Prop where
  numeric : s.bounds.Numeric number
  number : ∀ p ∈ s.stops, number p.1 ∧ number p.2
  contains : ∀ p ∈ s.stops, s.bounds.contains p = true

section Enclosed

variable [LE α] [DecidableLE α] {number : α → Prop} (order : TotalOn number)

include order

omit [Add α] [Sub α] [DecidableLT α] [Compass α] in
lemma enclosed_start (h₀ : number 0) : Enclosed number (start : Walk α) where
  numeric := ⟨h₀, h₀, h₀, h₀⟩
  number p hp := by
    obtain rfl : p = (0, 0) := by simpa [stops, start, trail, Pose.position] using hp
    exact ⟨h₀, h₀⟩
  contains p hp := by
    obtain rfl : p = (0, 0) := by simpa [stops, start, trail, Pose.position] using hp
    have hrefl := order.refl h₀
    exact Bounds.contains_iff.mpr ⟨hrefl, hrefl, hrefl, hrefl⟩

lemma Step.enclosed (h : Step turn s c s₁) (hx : number s₁.pose.x) (hy : number s₁.pose.y)
    (hs : Enclosed number s) : Enclosed number s₁ := by
  have hnumber : ∀ p ∈ s₁.stops, number p.1 ∧ number p.2 := by
    intro p hp
    rcases List.mem_cons.mp (h.stops_subset hp) with rfl | hp
    · exact ⟨hx, hy⟩
    · exact hs.number p hp
  rcases h.bounds_eq_or with ⟨hb, hpos⟩ | ⟨-, hb⟩
  · refine ⟨hb ▸ hs.numeric, hnumber, fun p hp => ?_⟩
    rw [hb]
    rcases List.mem_cons.mp (h.stops_subset hp) with rfl | hp
    · exact hs.contains _ hpos
    · exact hs.contains p hp
  · have hgrow : (s.bounds.grow s₁.pose.position).Numeric number := hs.numeric.grow hx hy
    refine ⟨hb ▸ hgrow, hnumber, fun p hp => ?_⟩
    rw [hb]
    rcases List.mem_cons.mp (h.stops_subset hp) with rfl | hp
    · exact order.contains_grow hs.numeric hx hy
    · obtain ⟨hpx, hpy⟩ := hs.number p hp
      exact order.contains_of_inside hs.numeric hgrow (order.inside_grow hs.numeric hx hy) hpx hpy
        (hs.contains p hp)

lemma Run.enclosed (h : Run turn s cs s₁)
    (hnumber : ∀ front s', front <+: cs → Run turn s front s' →
      number s'.pose.x ∧ number s'.pose.y)
    (hs : Enclosed number s) : Enclosed number s₁ := by
  induction h with
  | nil => exact hs
  | @cons s s₁ s₂ c cs hstep _ ih =>
    obtain ⟨hx, hy⟩ := hnumber [c] s₁ ⟨cs, rfl⟩ (.cons hstep (.nil s₁))
    refine ih (fun front s' hfront hrun => ?_) (hstep.enclosed order hx hy hs)
    exact hnumber (c :: front) s' (List.prefix_cons_inj c |>.mpr hfront) (.cons hstep hrun)

end Enclosed

lemma Step.tight (h : Step turn s c s₁) (hs : s.bounds.Tight (s.pose.position :: s.trail)) :
    s₁.bounds.Tight s₁.drawing.points := by
  have htrail : s.pose.position :: s.trail ⊆ s₁.drawing.points := by
    refine List.Subset.trans ?_ s₁.trail_subset_points
    rw [h.trail_eq]
    exact List.cons_subset.mpr ⟨by simp, List.subset_append_left _ _⟩
  rcases h.bounds_eq_or with ⟨hb, -⟩ | ⟨hc, hb⟩
  · rw [hb]
    exact hs.mono htrail
  · -- A step forward opens a path, and so its end is among the points.
    have hopen : s₁.path ≠ [] := by
      rw [Ne, h.path_eq_nil_iff, hc]
      exact nofun
    have hend : s₁.pose.position ∈ s₁.drawing.points := by
      rw [points_drawing, if_neg hopen]
      simp
    rw [hb]
    exact (hs.grow s₁.pose.position).mono (List.cons_subset.mpr ⟨hend, htrail⟩)

lemma Run.tight (h : Run turn s cs s₁) (hs : s.bounds.Tight (s.pose.position :: s.trail)) :
    cs = [] ∨ s₁.bounds.Tight s₁.drawing.points := by
  induction h with
  | nil => exact .inl rfl
  | cons hstep hrun ih =>
    have htight := hstep.tight hs
    rcases ih (htight.mono (points_subset _)) with rfl | hlast
    · cases hrun
      exact .inr htight
    · exact .inr hlast

end Walk

variable {α : Type} [OfNat α 0] [Add α] [Sub α] [LT α] [DecidableLT α] [LE α] [DecidableLE α]
  [Compass α]

/-- The box of a drawing holds the origin and all points, and each of its sides goes through a point
if there is one. The turtle may have any arithmetic, as long as it comes to numbers only. -/
theorem draw_bounds_smallest {number : α → Prop} (order : TotalOn number) {turn : α}
    {cs : List Command} {d : Drawing α} (h : draw turn cs = .ok d)
    (hnumber : ∀ front d', front <+: cs → draw turn front = .ok d' →
      number d'.turtle.x ∧ number d'.turtle.y) :
    d.bounds.minX ≤ d.bounds.maxX ∧ d.bounds.minY ≤ d.bounds.maxY ∧
      d.bounds.contains (0, 0) = true ∧
      (∀ path ∈ d.paths, ∀ p ∈ path, d.bounds.contains p = true) ∧
      (cs ≠ [] → d.bounds.Tight d.points ∧
        ∀ b : Bounds α, (∀ p ∈ d.points, b.contains p = true) → d.bounds.Inside b) ∧
      (cs = [] → d.bounds = ⟨0, 0, 0, 0⟩) := by
  obtain ⟨s, hrun, rfl⟩ := draw_eq_ok_iff.mp h
  have h₀ : number 0 := (hnumber [] _ List.nil_prefix rfl).1
  have henclosed : s.Enclosed number := by
    refine hrun.enclosed order (fun front s' hfront hrun' => ?_) (Walk.enclosed_start order h₀)
    exact hnumber front s'.drawing hfront (draw_eq_ok_iff.mpr ⟨s', hrun', rfl⟩)
  have horigin : s.bounds.contains (0, 0) = true := henclosed.contains _ List.mem_cons_self
  obtain ⟨h₁, h₂, h₃, h₄⟩ := Bounds.contains_iff.mp horigin
  obtain ⟨minX, maxX, minY, maxY⟩ := henclosed.numeric
  refine ⟨order.trans minX h₀ maxX h₁ h₂, order.trans minY h₀ maxY h₃ h₄, horigin, ?points,
    fun hcs => ?tight, fun hcs => ?empty⟩
  case points =>
    intro path hpath p hp
    apply henclosed.contains p
    have hpoint := Walk.points_subset s (List.mem_flatten.mpr ⟨path, hpath, hp⟩)
    rcases List.mem_cons.mp hpoint with rfl | hp
    · exact Walk.mem_stops.mpr (.inr (.inl rfl))
    · exact Walk.mem_stops.mpr (.inr (.inr (.inr hp)))
  case tight =>
    have hstart : (Walk.start : Walk α).bounds.Tight [(0, 0)] :=
      ⟨⟨_, List.mem_cons_self, rfl⟩, ⟨_, List.mem_cons_self, rfl⟩, ⟨_, List.mem_cons_self, rfl⟩,
        ⟨_, List.mem_cons_self, rfl⟩⟩
    have htight := (hrun.tight hstart).resolve_left hcs
    exact ⟨htight, fun b hb => htight.inside hb⟩
  case empty =>
    subst hcs
    cases hrun
    rfl

theorem trace_bounds_smallest_branch :
    ∃ d, trace (Word.commands ['f', '[', '-', 'f', ']', 'f']) 90 = .ok d ∧
      d.bounds.contains (0, 0) = true ∧
      (∀ path ∈ d.paths, ∀ p ∈ path, d.bounds.contains p = true) ∧ d.bounds.Tight d.points := by
  have hrun : (trace (Word.commands ['f', '[', '-', 'f', ']', 'f']) 90).toOption.isSome = true := by
    decide +kernel
  have hnumber : ∀ front ∈ (Word.commands ['f', '[', '-', 'f', ']', 'f']).inits,
      (trace front 90).toOption.all
        (fun d => !d.turtle.x.isNaN && !d.turtle.y.isNaN) = true := by
    decide +kernel
  cases htrace : trace (Word.commands ['f', '[', '-', 'f', ']', 'f']) 90 with
  | error e =>
    rw [htrace] at hrun
    cases hrun
  | ok d =>
    have hbox := draw_bounds_smallest Binary64.totalOn htrace fun front d' hfront hd' => by
      have hall := hnumber front ((List.mem_inits front _).mpr hfront)
      rw [show trace front 90 = .ok d' from hd'] at hall
      simpa [Except.toOption] using hall
    obtain ⟨-, -, horigin, hpoints, htight, -⟩ := hbox
    exact ⟨d, rfl, horigin, hpoints, (htight (by decide)).1⟩

end Lindenmayer
