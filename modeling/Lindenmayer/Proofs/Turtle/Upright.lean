import Lindenmayer.Proofs.Binary64.Cosine
import Lindenmayer.Proofs.Grammar.Unbranched
import Lindenmayer.Proofs.Turtle.Angle
import Lindenmayer.Proofs.Turtle.Failure
import Lindenmayer.Proofs.Turtle.Names

/-! Words that go up and down only. In exact quarter turns their drawing has no width. In doubles it has
some as soon as there is a step, since no heading that a turtle comes to by right angles is upright. -/

namespace Lindenmayer

open Binary64

lemma isFinite_rightAngle : (90 : Float).isFinite = true := by
  decide +kernel

lemma within_rightAngle : Within pace (radians 90) :=
  ⟨isFinite_radians isFinite_rightAngle, by decide +kernel⟩

lemma dvd_rightAngle : (2 : ℤ) ^ coarsePlace ∣ unitsOf (radians 90) := by
  decide +kernel

lemma within_zero : Within roam 0 := ⟨rfl, by decide +kernel⟩

namespace Binary64.Coarse

variable {x : Float}

lemma zero : Coarse 0 := ⟨within_zero, dvd_zero _⟩

lemma left (h : Coarse x) : Coarse (x + radians 90) :=
  have hwithin := h.within.add_pace within_rightAngle
  ⟨hwithin, two_pow_dvd_add hwithin.isFinite h.dvd dvd_rightAngle⟩

lemma right (h : Coarse x) : Coarse (x - radians 90) :=
  have hwithin := h.within.sub_pace within_rightAngle
  ⟨hwithin, two_pow_dvd_sub hwithin.isFinite h.dvd dvd_rightAngle⟩

lemma exists_cosSin (h : Coarse x) :
    ∃ d, cosSin x = some d ∧ Within pace d.1 ∧ Within pace d.2 ∧ unitsOf d.1 ≠ 0 := by
  have hnumber := isNaN_of_isFinite h.within.isFinite
  cases hd : cosSin x with
  | none =>
    obtain ⟨negative, hvalue⟩ := cosSin_eq_none_iff.mp hd
    obtain ⟨q, hq⟩ := (isFinite_iff x).mp h.within.isFinite
    rw [rational?, hvalue] at hq
    cases hq
  | some d => exact ⟨d, rfl, (within_cosSin hnumber hd).1, (within_cosSin hnumber hd).2,
      unitsOf_cos_ne_zero h hd⟩

end Binary64.Coarse

namespace Walk

section Still

variable {α : Type} [Add α] [Sub α] [LT α] [DecidableLT α] [Compass α]
variable {turn : α} {s s₁ : Walk α} {c : Command} {cs : List Command}

lemma Step.still (h : Step turn s c s₁) (hforward : c ≠ .forward) (hrestore : c ≠ .restore) :
    s₁.pose.position = s.pose.position ∧ s₁.bounds = s.bounds := by
  cases h with
  | idle | left | right | save => exact ⟨rfl, rfl⟩
  | restore => exact absurd rfl hrestore
  | forward => exact absurd rfl hforward

lemma Run.still (h : Run turn s cs s₁) (hforward : .forward ∉ cs)
    (hrestore : ∀ c ∈ cs, c ≠ .restore) : s₁.pose.position = s.pose.position ∧ s₁.bounds = s.bounds := by
  induction h with
  | nil => exact ⟨rfl, rfl⟩
  | cons hstep _ ih =>
    obtain ⟨hc, hcs⟩ := List.forall_mem_cons.mp hrestore
    obtain ⟨hne, hforward⟩ := not_or.mp (mt List.mem_cons.mpr hforward)
    obtain ⟨hposition, hbounds⟩ := hstep.still (Ne.symm hne) hc
    rw [← hposition, ← hbounds]
    exact ih hforward hcs

end Still

section Steady

/-- A walk by right angles. -/
structure Steady (s : Walk Float) : Prop where
  heading : Coarse s.pose.heading
  stops : ∀ p ∈ s.pose.position :: s.trail, Within roam p.1 ∧ Within roam p.2

variable {s s₁ : Walk Float} {c : Command} {cs : List Command}

lemma steady_start : Steady start := by
  refine ⟨Coarse.zero, fun p hp => ?_⟩
  obtain rfl := List.mem_singleton.mp hp
  exact ⟨within_zero, within_zero⟩

lemma Step.steady (h : Step (radians 90) s c s₁) (hc : c ≠ .restore) (hs : s.Steady) : s₁.Steady := by
  obtain ⟨⟨hx, hy⟩, htrail⟩ := List.forall_mem_cons.mp hs.stops
  have htrail₁ : ∀ p ∈ s₁.trail, Within roam p.1 ∧ Within roam p.2 := by
    rw [h.trail_eq]
    exact List.forall_mem_append.mpr ⟨htrail, List.forall_mem_singleton.mpr ⟨hx, hy⟩⟩
  cases h with
  | idle | save => exact ⟨hs.heading, List.forall_mem_cons.mpr ⟨⟨hx, hy⟩, htrail₁⟩⟩
  | left => exact ⟨hs.heading.left, List.forall_mem_cons.mpr ⟨⟨hx, hy⟩, htrail₁⟩⟩
  | right => exact ⟨hs.heading.right, List.forall_mem_cons.mpr ⟨⟨hx, hy⟩, htrail₁⟩⟩
  | restore => exact absurd rfl hc
  | forward hd =>
    obtain ⟨hdx, hdy⟩ := within_cosSin (isNaN_of_isFinite hs.heading.within.isFinite) hd
    exact ⟨hs.heading, List.forall_mem_cons.mpr ⟨⟨hx.add_pace hdx, hy.add_pace hdy⟩, htrail₁⟩⟩

lemma Steady.exists_step (hs : s.Steady) (hc : c ≠ .restore) : ∃ s₁, Step (radians 90) s c s₁ := by
  cases c with
  | idle => exact ⟨_, .idle⟩
  | left => exact ⟨_, .left⟩
  | right => exact ⟨_, .right⟩
  | save => exact ⟨_, .save⟩
  | restore => exact absurd rfl hc
  | forward =>
    obtain ⟨d, hd, -⟩ := hs.heading.exists_cosSin
    exact ⟨_, .forward hd⟩

lemma Steady.exists_run (hs : s.Steady) (hcs : ∀ c ∈ cs, c ≠ .restore) :
    ∃ s₁, Run (radians 90) s cs s₁ ∧ s₁.Steady := by
  induction cs generalizing s with
  | nil => exact ⟨s, .nil s, hs⟩
  | cons c cs ih =>
    obtain ⟨hc, hcs⟩ := List.forall_mem_cons.mp hcs
    obtain ⟨s₁, hstep⟩ := hs.exists_step hc
    obtain ⟨s₂, hrun, hsteady⟩ := ih (hstep.steady hc hs) hcs
    exact ⟨s₂, .cons hstep hrun, hsteady⟩

/-- The first step forward leads off the vertical axis. -/
lemma Run.exists_off_axis (h : Run (radians 90) .start cs s) (hcs : ∀ c ∈ cs, c ≠ .restore)
    (hforward : .forward ∈ cs) :
    (0, 0) ∈ s.drawing.points ∧ ∃ p ∈ s.drawing.points, unitsOf p.1 ≠ 0 := by
  have hne : cs ≠ [] := List.ne_nil_of_mem hforward
  refine ⟨h.position_mem (List.nil_subset _) hne List.nil_prefix (.nil start), ?_⟩
  obtain ⟨front, rest, rfl, hfirst⟩ := List.eq_append_cons_of_mem hforward
  obtain ⟨hfront, -⟩ := List.forall_mem_append.mp hcs
  obtain ⟨s₁, hrun, hsteady⟩ := steady_start.exists_run hfront
  obtain ⟨hposition, -⟩ := hrun.still hfirst hfront
  obtain ⟨d, hd, hdx, -, hoff⟩ := hsteady.heading.exists_cosSin
  have hstep := hrun.append (.cons (.forward hd) (.nil _))
  have hx : s₁.pose.x = 0 := congrArg Prod.fst hposition
  refine ⟨_, h.position_mem (List.nil_subset _) hne ⟨rest, List.append_assoc _ _ _⟩ hstep, ?_⟩
  change unitsOf (s₁.pose.x + d.1) ≠ 0
  rw [hx, (unitsOf_add rfl hdx.isFinite).2, unitsOf_zero, zero_add,
    (denotes_unpack hdx.isFinite).nearest_zero_eq, capped_unitsOf hdx.isFinite]
  exact hoff

end Steady

end Walk

lemma unitsOf_le_of_contains {b : Bounds Float} {p : Point Float} (hb : b.contains p = true)
    (hmin : b.minX.isFinite = true) (hmax : b.maxX.isFinite = true) (hp : p.1.isFinite = true) :
    unitsOf b.minX ≤ unitsOf p.1 ∧ unitsOf p.1 ≤ unitsOf b.maxX := by
  obtain ⟨hlow, hhigh, -, -⟩ := Bounds.contains_iff.mp hb
  exact ⟨unitsOf_mono (isNaN_of_isFinite hmin) (isNaN_of_isFinite hp) hlow,
    unitsOf_mono (isNaN_of_isFinite hp) (isNaN_of_isFinite hmax) hhigh⟩

/-- A drawing whose box is finite from side to side, and as wide as it has to be. -/
structure Drawing.Spans (d : Drawing Float) : Prop where
  minX : d.bounds.minX.isFinite = true
  maxX : d.bounds.maxX.isFinite = true
  width : d.bounds.width.isFinite = true
  points : ∀ p ∈ d.points, p.1.isFinite = true
  contains : ∀ p ∈ d.points, d.bounds.contains p = true
  tight : d.bounds.Tight d.points

/-- A curve by right angles that restores nothing can be walked to the end, and has a width just if it
goes a step. -/
lemma exists_trace_rightAngle {cs : List Command} (hcs : ∀ c ∈ cs, c ≠ .restore) :
    ∃ d, trace cs 90 = .ok d ∧ (cs = [] ∧ d = ⟨[], ⟨0, 0, 0, 0⟩, ⟨0, 0, 0⟩⟩ ∨ d.Spans) ∧
      (0 < d.bounds.width ↔ .forward ∈ cs) := by
  obtain ⟨s, hrun, hsteady⟩ := Walk.steady_start.exists_run hcs
  have htrace : trace cs 90 = .ok s.drawing := draw_eq_ok_iff.mpr ⟨s, hrun, rfl⟩
  refine ⟨s.drawing, htrace, ?_⟩
  rcases eq_or_ne cs [] with rfl | hne
  · cases hrun
    exact ⟨.inl ⟨rfl, rfl⟩, by decide +kernel⟩
  have hroam : ∀ p ∈ s.drawing.points, Within roam p.1 :=
    fun p hp => (hsteady.stops p (s.points_subset hp)).1
  have htight := hrun.tight_points hne
  obtain ⟨low, hlow, hmin⟩ := htight.minX
  obtain ⟨high, hhigh, hmax⟩ := htight.maxX
  have hspans : s.drawing.Spans := by
    have hminX : Within roam s.drawing.bounds.minX := hmin ▸ hroam low hlow
    have hmaxX : Within roam s.drawing.bounds.maxX := hmax ▸ hroam high hhigh
    refine ⟨hminX.isFinite, hmaxX.isFinite, isFinite_sub_of_roam hmaxX hminX,
      fun p hp => (hroam p hp).isFinite, ?_, htight⟩
    exact hrun.contains_of_numbers Binary64.totalOn rfl hne (isNumber_of_trace isFinite_rightAngle htrace)
  refine ⟨.inr hspans, ?_⟩
  by_cases hforward : .forward ∈ cs
  · refine iff_of_true ?_ hforward
    obtain ⟨horigin, p, hp, hoff⟩ := hrun.exists_off_axis hcs hforward
    have hzero := unitsOf_le_of_contains (hspans.contains _ horigin) hspans.minX hspans.maxX rfl
    have hside := unitsOf_le_of_contains (hspans.contains p hp) hspans.minX hspans.maxX (hspans.points p hp)
    rw [unitsOf_zero] at hzero
    rw [Bounds.width, zero_lt_sub_iff hspans.maxX hspans.minX]
    omega
  · refine iff_of_false ?_ hforward
    obtain ⟨-, hbounds⟩ := hrun.still hforward hcs
    change ¬ 0 < s.bounds.width
    rw [hbounds]
    decide +kernel

section Exact

lemma fst_quarterStride_of_odd {heading : ℤ} (h : Odd heading) : (quarterStride heading).1 = 0 := by
  obtain ⟨k, rfl⟩ := h
  unfold quarterStride
  split_ifs
  · omega
  · rfl
  · omega
  · rfl

namespace Walk

variable {s s₁ : Walk ℤ} {c : Command} {cs : List Command}

lemma Step.heading_eq (h : Step 1 s c s₁) (hc : c ≠ .restore) :
    s₁.pose.heading = s.pose.heading + (([c].count .left : ℤ) - [c].count .right) := by
  have hstance := congrArg Stance.heading (h.stance hc)
  exact hstance.trans (Stance.heading_follow s.pose.stance [c])

def OnAxis (s : Walk ℤ) : Prop := ∀ p ∈ s.pose.position :: s.trail, p.1 = 0

lemma Step.onAxis (h : Step 1 s c s₁) (hc : c ≠ .restore) (hodd : c = .forward → Odd s.pose.heading)
    (hs : s.OnAxis) : s₁.OnAxis := by
  obtain ⟨hx, htrail⟩ := List.forall_mem_cons.mp hs
  have htrail₁ : ∀ p ∈ s₁.trail, p.1 = 0 := by
    rw [h.trail_eq]
    exact List.forall_mem_append.mpr ⟨htrail, List.forall_mem_singleton.mpr hx⟩
  refine List.forall_mem_cons.mpr ⟨?_, htrail₁⟩
  cases h with
  | idle | left | right | save => exact hx
  | restore => exact absurd rfl hc
  | forward hd =>
    obtain rfl := Option.some.inj hd
    change s.pose.x + (quarterStride s.pose.heading).1 = 0
    rw [fst_quarterStride_of_odd (hodd rfl), add_zero]
    exact hx

lemma Run.onAxis (h : Run 1 s cs s₁) (hcs : ∀ c ∈ cs, c ≠ .restore)
    (hodd : ∀ front, front ++ [.forward] <+: cs →
      Odd (s.pose.heading + ((front.count .left : ℤ) - front.count .right)))
    (hs : s.OnAxis) : s₁.OnAxis := by
  induction h with
  | nil => exact hs
  | @cons s s₁ s₂ c cs hstep _ ih =>
    obtain ⟨hc, hcs⟩ := List.forall_mem_cons.mp hcs
    refine ih hcs (fun front hfront => ?_) (hstep.onAxis hc (fun hforward => ?_) hs)
    · have hfirst := hodd (c :: front) (List.prefix_cons_inj c |>.mpr hfront)
      rw [hstep.heading_eq hc]
      rw [show c :: front = [c] ++ front from rfl, List.count_append, List.count_append] at hfirst
      push_cast at hfirst
      convert hfirst using 1
      ring
    · subst hforward
      simpa using hodd [] ⟨cs, rfl⟩

end Walk

/-- All steps of the word are made after an odd number of quarter turns. -/
structure Word.Upright (w : Word) : Prop where
  unbranched : w.Unbranched
  odd : ∀ front, front ++ [.char 'f'] <+: w →
    Odd ((front.count (.char '+') : ℤ) - front.count (.char '-'))

namespace Word

variable {w : Word}

instance : Decidable w.Upright :=
  decidable_of_iff
    (w.Unbranched ∧
      ∀ front ∈ w.inits, front ++ [.char 'f'] <+: w →
        Odd ((front.count (.char '+') : ℤ) - front.count (.char '-')))
    ⟨fun h => ⟨h.1, fun front hfront =>
        h.2 front ((List.mem_inits _ _).mpr ((List.prefix_append _ _).trans hfront)) hfront⟩,
      fun h => ⟨h.unbranched, fun front _ => h.odd front⟩⟩

lemma Upright.odd_commands (h : w.Upright) (front : List Command)
    (hfront : front ++ [.forward] <+: w.commands) :
    Odd ((front.count .left : ℤ) - front.count .right) := by
  obtain ⟨v, hv, heq⟩ := List.prefix_map_iff.mp hfront
  obtain ⟨u, t, rfl, rfl, hlast⟩ := List.append_eq_map_iff.mp heq
  obtain ⟨x, rfl, hx⟩ := List.map_eq_singleton_iff.mp hlast
  obtain rfl := (Command.ofSymbol_eq_forward_iff x).mp hx
  change Odd (((Word.commands u).count .left : ℤ) - (Word.commands u).count .right)
  rw [Word.count_commands Command.ofSymbol_eq_left_iff, Word.count_commands Command.ofSymbol_eq_right_iff]
  exact h.odd u hv

lemma Upright.exists_quarterTrace (h : w.Upright) :
    ∃ d, quarterTrace w.commands = .ok d ∧ ∀ p ∈ d.points, p.1 = 0 := by
  have hcs := h.unbranched.commands_ne_restore
  obtain ⟨s, hrun, -, -⟩ := Walk.start.exists_run hcs
  refine ⟨s.drawing, draw_eq_ok_iff.mpr ⟨s, hrun, rfl⟩, fun p hp => ?_⟩
  refine hrun.onAxis hcs (fun front hfront => ?_) (fun q hq => ?_) p (s.points_subset hp)
  · rw [show (Walk.start : Walk ℤ).pose.heading = 0 from rfl, zero_add]
    exact h.odd_commands front hfront
  · obtain rfl := List.mem_singleton.mp hq
    rfl

end Word

end Exact

end Lindenmayer
