import Lindenmayer.Proofs.Binary64.Circular
import Lindenmayer.Proofs.Turtle.Numbers

/-! Curves at a finite angle. Their headings may grow beyond all doubles, but none of them is lost, and so
the turtle comes to numbers only. -/

namespace Lindenmayer

open Binary64

lemma isFinite_radians {angle : Float} (h : angle.isFinite = true) :
    (radians angle).isFinite = true := by
  have hpos : 0 ≤ unitsOf degree := by decide +kernel
  have hle : unitsOf degree ≤ unitsOf 1 := by decide +kernel
  exact isFinite_mul_of_le_one h rfl hpos hle

structure Pose.IsNumber (p : Pose Float) : Prop where
  position : p.position.IsNumber
  heading : p.heading.isNaN = false

namespace Walk

variable {turn : Float} {s s₁ : Walk Float} {c : Command} {cs : List Command}

structure Numeric (s : Walk Float) : Prop where
  poses : ∀ p ∈ s.pose :: s.saved, p.IsNumber
  trail : ∀ p ∈ s.trail, p.IsNumber

lemma numeric_start : Numeric start := by
  refine ⟨fun p hp => ?_, fun p hp => absurd hp List.not_mem_nil⟩
  obtain rfl := List.mem_singleton.mp hp
  exact ⟨⟨rfl, rfl⟩, rfl⟩

lemma Step.numeric (hturn : turn.isFinite = true) (h : Step turn s c s₁) (hs : s.Numeric) :
    s₁.Numeric := by
  obtain ⟨hpose, hsaved⟩ := List.forall_mem_cons.mp hs.poses
  obtain ⟨⟨hx, hy⟩, hheading⟩ := hpose
  constructor
  · cases h with
    | idle => exact hs.poses
    | left => exact List.forall_mem_cons.mpr ⟨⟨⟨hx, hy⟩, isNaN_add hheading hturn⟩, hsaved⟩
    | right => exact List.forall_mem_cons.mpr ⟨⟨⟨hx, hy⟩, isNaN_sub hheading hturn⟩, hsaved⟩
    | save => exact List.forall_mem_cons.mpr ⟨⟨⟨hx, hy⟩, hheading⟩, hs.poses⟩
    | restore hrestored =>
      rw [hrestored] at hsaved
      exact hsaved
    | forward hd =>
      obtain ⟨hdx, hdy⟩ := within_cosSin hheading hd
      exact List.forall_mem_cons.mpr
        ⟨⟨⟨isNaN_add hx hdx.isFinite, isNaN_add hy hdy.isFinite⟩, hheading⟩, hsaved⟩
  · intro p hp
    rw [h.trail_eq, List.mem_append, List.mem_singleton] at hp
    rcases hp with hp | rfl
    · exact hs.trail p hp
    · exact ⟨hx, hy⟩

lemma Run.numeric (hturn : turn.isFinite = true) (h : Run turn s cs s₁) (hs : s.Numeric) :
    s₁.Numeric := by
  induction h with
  | nil => exact hs
  | cons hstep _ ih => exact ih (hstep.numeric hturn hs)

end Walk

lemma isNumber_of_trace {cs : List Command} {angle : Float} {d : Drawing Float}
    (hangle : angle.isFinite = true) (h : trace cs angle = .ok d) : ∀ p ∈ d.points, p.IsNumber := by
  obtain ⟨s, hrun, rfl⟩ := draw_eq_ok_iff.mp h
  have hnumeric := hrun.numeric (isFinite_radians hangle) Walk.numeric_start
  intro p hp
  rcases List.mem_cons.mp (s.points_subset hp) with rfl | hp
  · exact (hnumeric.poses _ List.mem_cons_self).position
  · exact hnumeric.trail p hp

end Lindenmayer
