import Lindenmayer.Proofs.Binary64.Negation
import Lindenmayer.Proofs.Turtle.Continuation
import Lindenmayer.Proofs.Turtle.Names

/-! Drawings in the mirror. A walk whose turns go the other way comes to the places below the axis where
the walk itself comes above it, and it fails where the walk itself fails. -/

namespace Lindenmayer

section Mirrored

variable {α : Type} (opposite : α → α → Prop)

structure Point.Mirrored (p p' : Point α) : Prop where
  x : p'.1 = p.1
  y : opposite p.2 p'.2

structure Pose.Mirrored (p p' : Pose α) : Prop where
  x : p'.x = p.x
  y : opposite p.y p'.y
  heading : opposite p.heading p'.heading

structure Bounds.Mirrored (b b' : Bounds α) : Prop where
  minX : b'.minX = b.minX
  maxX : b'.maxX = b.maxX
  minY : opposite b.maxY b'.minY
  maxY : opposite b.minY b'.maxY

/-- One drawing is the other, reflected in the first axis. -/
structure Drawing.Mirrored (d d' : Drawing α) : Prop where
  paths : List.Forall₂ (List.Forall₂ (Point.Mirrored opposite)) d.paths d'.paths
  bounds : d.bounds.Mirrored opposite d'.bounds
  turtle : d.turtle.Mirrored opposite d'.turtle

structure Walk.Mirrored (s s' : Walk α) : Prop where
  pose : s.pose.Mirrored opposite s'.pose
  bounds : s.bounds.Mirrored opposite s'.bounds
  saved : List.Forall₂ (Pose.Mirrored opposite) s.saved s'.saved
  path : List.Forall₂ (Point.Mirrored opposite) s.path s'.path
  closed : List.Forall₂ (List.Forall₂ (Point.Mirrored opposite)) s.closed s'.closed

variable [OfNat α 0] [Add α] [Sub α] [LT α] [Compass α]

/-- What the walk does with its numbers, it does with the opposite ones as well. -/
structure Reflection : Prop where
  zero : opposite 0 0
  add {a a' b b' : α} : opposite a a' → opposite b b' → opposite (a + b) (a' + b')
  sub {a a' b b' : α} : opposite a a' → opposite b b' → opposite (a - b) (a' - b')
  lt_iff {a a' b b' : α} : opposite a a' → opposite b b' → (a < b ↔ b' < a')
  stride {a a' : α} : opposite a a' →
    Option.Rel (Point.Mirrored opposite) (Compass.stride a) (Compass.stride a')

end Mirrored

variable {α : Type} {opposite : α → α → Prop}

lemma Pose.Mirrored.position {p p' : Pose α} (h : p.Mirrored opposite p') :
    Point.Mirrored opposite p.position p'.position := ⟨h.x, h.y⟩

namespace Walk

namespace Mirrored

variable {s s' : Walk α}

lemma mark (h : s.Mirrored opposite s') : s.mark.Mirrored opposite s'.mark :=
  ⟨h.pose, h.bounds, h.saved, .cons h.pose.position h.path, h.closed⟩

lemma face {a a' : α} (h : s.Mirrored opposite s') (ha : opposite a a') :
    (s.face a).Mirrored opposite (s'.face a') :=
  ⟨⟨h.pose.x, h.pose.y, ha⟩, h.bounds, h.saved, h.path, h.closed⟩

lemma drawing (h : s.Mirrored opposite s') : s.drawing.Mirrored opposite s'.drawing := by
  obtain ⟨pose, bounds, saved, path, closed⟩ := s
  obtain ⟨pose', bounds', saved', path', closed'⟩ := s'
  obtain ⟨hpose, hbounds, -, hpath, hclosed⟩ := h
  refine ⟨?_, hbounds, hpose⟩
  cases hpath with
  | nil => exact List.forall₂_reverse_iff.mpr hclosed
  | cons hp hps =>
    have hlast := List.forall₂_reverse_iff.mpr (.cons hpose.position (.cons hp hps))
    exact List.forall₂_reverse_iff.mpr (.cons hlast hclosed)

end Mirrored

end Walk

section Reflected

variable [OfNat α 0] [Add α] [Sub α] [LT α] [DecidableLT α] [Compass α]
variable (law : Reflection opposite)

include law

lemma Bounds.Mirrored.grow {b b' : Bounds α} {p p' : Point α} (hb : b.Mirrored opposite b')
    (hp : p.Mirrored opposite p') : (b.grow p).Mirrored opposite (b'.grow p') := by
  -- The upper bound is compared where the lower one is in the mirror.
  constructor
  · rw [Bounds.grow, Bounds.grow, hp.x, hb.minX]
  · rw [Bounds.grow, Bounds.grow, hp.x, hb.maxX]
  · by_cases h : b.maxY < p.2
    · have h' : p'.2 < b'.minY := (law.lt_iff hb.minY hp.y).mp h
      simp only [Bounds.grow, if_pos h, if_pos h']
      exact hp.y
    · have h' : ¬ p'.2 < b'.minY := mt (law.lt_iff hb.minY hp.y).mpr h
      simp only [Bounds.grow, if_neg h, if_neg h']
      exact hb.minY
  · by_cases h : p.2 < b.minY
    · have h' : b'.maxY < p'.2 := (law.lt_iff hp.y hb.maxY).mp h
      simp only [Bounds.grow, if_pos h, if_pos h']
      exact hp.y
    · have h' : ¬ b'.maxY < p'.2 := mt (law.lt_iff hp.y hb.maxY).mpr h
      simp only [Bounds.grow, if_neg h, if_neg h']
      exact hb.maxY

namespace Walk

variable {turn turn' : α} {s s₁ s' : Walk α} {c : Command} {cs : List Command} {e : WalkError} {i : ℕ}

lemma Mirrored.moveTo {p p' : Point α} (h : s.Mirrored opposite s') (hp : p.Mirrored opposite p') :
    (s.moveTo p).Mirrored opposite (s'.moveTo p') :=
  ⟨⟨hp.x, hp.y, h.pose.heading⟩, h.bounds.grow law hp, h.saved, h.path, h.closed⟩

lemma Step.mirrored (hturn : opposite turn turn') (h : Step turn s c s₁) (hs : s.Mirrored opposite s') :
    ∃ s₁', Step turn' s' c s₁' ∧ s₁.Mirrored opposite s₁' := by
  cases h with
  | idle => exact ⟨_, .idle, hs.mark⟩
  | left => exact ⟨_, .left, hs.mark.face (law.add hs.pose.heading hturn)⟩
  | right => exact ⟨_, .right, hs.mark.face (law.sub hs.pose.heading hturn)⟩
  | save => exact ⟨_, .save, hs.pose, hs.bounds, .cons hs.pose hs.saved, hs.mark.path, hs.closed⟩
  | restore hsaved =>
    have hmirrored := hs.saved
    rw [hsaved] at hmirrored
    generalize hsaved' : s'.saved = saved' at hmirrored
    cases hmirrored with
    | cons hp hps =>
      exact ⟨_, .restore hsaved', hp, hs.bounds, hps, .nil,
        .cons (List.forall₂_reverse_iff.mpr hs.mark.path) hs.closed⟩
  | forward hd =>
    have hstride := law.stride hs.pose.heading
    rw [hd] at hstride
    generalize hd' : Compass.stride s'.pose.heading = d' at hstride
    cases hstride with
    | some hd'' =>
      refine ⟨_, .forward hd', hs.mark.moveTo law ⟨?_, law.add hs.pose.y hd''.y⟩⟩
      rw [hs.pose.x, hd''.x]

lemma Run.mirrored (hturn : opposite turn turn') (h : Run turn s cs s₁) (hs : s.Mirrored opposite s') :
    ∃ s₁', Run turn' s' cs s₁' ∧ s₁.Mirrored opposite s₁' := by
  induction h generalizing s' with
  | nil => exact ⟨s', .nil s', hs⟩
  | cons hstep _ ih =>
    obtain ⟨s₁', hstep', hs₁⟩ := hstep.mirrored law hturn hs
    obtain ⟨s₂', hrun, hs₂⟩ := ih hs₁
    exact ⟨s₂', .cons hstep' hrun, hs₂⟩

omit [DecidableLT α] in
lemma Blocked.mirrored (h : s.Blocked i c e) (hs : s.Mirrored opposite s') : s'.Blocked i c e := by
  cases h with
  | restore hnone =>
    have hsaved := hs.saved
    rw [hnone, List.forall₂_nil_left_iff] at hsaved
    exact .restore hsaved
  | forward hnone =>
    have hstride := law.stride hs.pose.heading
    rw [hnone] at hstride
    generalize hnone' : Compass.stride s'.pose.heading = d' at hstride
    cases hstride with
    | none => exact .forward hnone'

omit [DecidableLT α] in
lemma mirrored_start : (start : Walk α).Mirrored opposite start :=
  ⟨⟨rfl, law.zero, law.zero⟩, ⟨rfl, rfl, law.zero, law.zero⟩, .nil, .nil, .nil⟩

end Walk

variable {turn turn' : α} {cs : List Command} {e : WalkError}

lemma draw_mirrored (hturn : opposite turn turn') {d : Drawing α} (h : draw turn cs = .ok d) :
    ∃ d', draw turn' cs = .ok d' ∧ d.Mirrored opposite d' := by
  obtain ⟨s, hrun, rfl⟩ := draw_eq_ok_iff.mp h
  obtain ⟨s', hrun', hs⟩ := hrun.mirrored law hturn (Walk.mirrored_start law)
  exact ⟨s'.drawing, draw_eq_ok_iff.mpr ⟨s', hrun', rfl⟩, hs.drawing⟩

lemma draw_error_mirrored (hturn : opposite turn turn') (h : draw turn cs = .error e) :
    draw turn' cs = .error e := by
  obtain ⟨front, c, rest, s, hcs, hrun, hblocked⟩ := draw_eq_error_iff.mp h
  obtain ⟨s', hrun', hs⟩ := hrun.mirrored law hturn (Walk.mirrored_start law)
  exact draw_eq_error_iff.mpr ⟨front, c, rest, s', hcs, hrun', hblocked.mirrored law hs⟩

end Reflected

section Turned

variable [Add α] [Sub α] [LT α] [DecidableLT α] [Compass α] {turn turn' : α}

/-- A turn to the left for one to the right, and the other way round. -/
def Command.turned : Command → Command := Equiv.swap .left .right

variable (hleft : ∀ h : α, h + turn = h - turn') (hright : ∀ h : α, h - turn = h + turn')

include hleft hright

lemma Walk.step_turned (s : Walk α) (index : ℕ) (c : Command) :
    s.step turn index c.turned = s.step turn' index c := by
  cases c with
  | left => exact congrArg (fun h => Except.ok (s.mark.face h)) (hright s.pose.heading)
  | right => exact congrArg (fun h => Except.ok (s.mark.face h)) (hleft s.pose.heading)
  | save | restore | idle | forward => rfl

lemma Walk.run_turned (s : Walk α) (index : ℕ) (cs : List Command) :
    s.run turn index (cs.map Command.turned) = s.run turn' index cs := by
  induction cs generalizing s index with
  | nil => rfl
  | cons c cs ih =>
    rw [List.map_cons, run, run, step_turned hleft hright]
    simp only [ih]

lemma draw_turned [OfNat α 0] (cs : List Command) :
    draw turn (cs.map Command.turned) = draw turn' cs := by
  rw [draw, draw, Walk.run_turned hleft hright]

end Turned

/-- The symbols with the two turns exchanged. -/
def turned (ns : List Word) : List Word := ns.map (Equiv.swap [.char '+'] [.char '-'])

lemma map_turned (ns : List Word) :
    (turned ns).map Command.ofName = (ns.map Command.ofName).map Command.turned := by
  rw [turned, List.map_map, List.map_map]
  refine List.map_congr_left fun n _ => ?_
  change Command.ofName (Equiv.swap [.char '+'] [.char '-'] n) =
    Equiv.swap .left .right (Command.ofName n)
  rcases eq_or_ne n [.char '+'] with rfl | hplus
  · rfl
  rcases eq_or_ne n [.char '-'] with rfl | hminus
  · rfl
  rw [Equiv.swap_apply_of_ne_of_ne hplus hminus, Equiv.swap_apply_of_ne_of_ne]
  · exact mt (Command.ofName_eq_left_iff n).mp hplus
  · exact mt (Command.ofName_eq_right_iff n).mp hminus

lemma reflection : Reflection Binary64.Opposite where
  zero := Binary64.opposite_zero
  add := Binary64.Opposite.add
  sub := Binary64.Opposite.sub
  lt_iff := Binary64.Opposite.lt_iff
  stride {x y} h := by
    have hcircular := Binary64.cosSin_opposite h
    change Option.Rel _ (Binary64.cosSin x) (Binary64.cosSin y)
    generalize Binary64.cosSin x = d, Binary64.cosSin y = d' at hcircular ⊢
    cases hcircular with
    | none => exact .none
    | some hd => exact .some ⟨hd.1, hd.2⟩

lemma radians_neg (angle : Float) : radians (-angle) = -radians angle :=
  Binary64.float_neg_mul angle degree

/-- To exchange the turns is to negate the angle, and either draws the mirror image. -/
theorem trace_mirrored (ns : List Word) (angle : Float) :
    trace ((turned ns).map Command.ofName) angle = trace (ns.map Command.ofName) (-angle) ∧
    (∀ e, trace (ns.map Command.ofName) angle = .error e ↔
      trace (ns.map Command.ofName) (-angle) = .error e) ∧
    ∀ d, trace (ns.map Command.ofName) angle = .ok d →
      ∃ d', trace (ns.map Command.ofName) (-angle) = .ok d' ∧
        d.Mirrored Binary64.Opposite d' := by
  have hturn : Binary64.Opposite (radians angle) (radians (-angle)) := .inl (radians_neg angle)
  refine ⟨?turned, fun e => ⟨?fails, ?failed⟩, fun d hd => draw_mirrored reflection hturn hd⟩
  case turned =>
    have hleft (h : Float) : h + radians angle = h - radians (-angle) := by
      rw [radians_neg, Binary64.float_sub_eq_add_neg, Binary64.float_neg_neg]
    have hright (h : Float) : h - radians angle = h + radians (-angle) := by
      rw [radians_neg, Binary64.float_sub_eq_add_neg]
    rw [map_turned]
    exact draw_turned hleft hright _
  case fails => exact draw_error_mirrored reflection hturn
  case failed =>
    intro h
    cases htrace : trace (ns.map Command.ofName) angle with
    | ok d =>
      obtain ⟨d', hd', -⟩ := draw_mirrored reflection hturn htrace
      exact absurd (hd'.symm.trans h) nofun
    | error e' =>
      have h' := draw_error_mirrored reflection hturn htrace
      exact congrArg Except.error (Except.error.inj (h'.symm.trans h))

end Lindenmayer
