import Lindenmayer.Proofs.Binary64.Arithmetic
import Lindenmayer.Proofs.Turtle.Numbers
import Lindenmayer.Svg.Surface

/-! Where the points of a drawing come to lie on a surface. They lie between the margin and the place of
the far corner of the box, and so all of them are placed at numbers if that corner is. -/

namespace Lindenmayer

namespace Binary64

variable {lo x hi w s : Float}

lemma unitsOf_sub_mono {a b c d : Float} (ha : a.isFinite = true) (hb : b.isFinite = true)
    (hc : c.isFinite = true) (hd : d.isFinite = true) (hac : unitsOf a ≤ unitsOf c)
    (hdb : unitsOf d ≤ unitsOf b) : unitsOf (a - b) ≤ unitsOf (c - d) := by
  rw [(unitsOf_sub ha hb).2, (unitsOf_sub hc hd).2]
  exact capped_nearest_mono 0 (by omega)

lemma unitsOf_sub_self (hx : x.isFinite = true) : unitsOf (x - x) = 0 := by
  rw [(unitsOf_sub hx hx).2, Int.sub_self, capped_nearest_zero]

lemma isFinite_sub_self (hx : x.isFinite = true) : (x - x).isFinite = true :=
  isFinite_of_unitsOf_eq_zero (unitsOf_sub hx hx).1 (unitsOf_sub_self hx)

lemma unitsOf_sub_between (hlo : lo.isFinite = true) (hx : x.isFinite = true) (hhi : hi.isFinite = true)
    (hlow : unitsOf lo ≤ unitsOf x) (hhigh : unitsOf x ≤ unitsOf hi) :
    0 ≤ unitsOf (x - lo) ∧ unitsOf (x - lo) ≤ unitsOf (hi - lo) := by
  rw [← unitsOf_sub_self hlo]
  exact ⟨unitsOf_sub_mono hlo hlo hx hlo hlow le_rfl, unitsOf_sub_mono hx hlo hhi hlo hhigh le_rfl⟩

/-- On one axis, with `lo` or `hi` at the margin. -/
lemma isFinite_axis (hlo : lo ≤ x) (hhi : x ≤ hi) (hx : x.isNaN = false)
    (h : (w + (hi - lo) * s).isFinite = true) :
    (w + (x - lo) * s).isFinite = true ∧ (w + (hi - x) * s).isFinite = true := by
  obtain ⟨hfhi, hflo⟩ := isFinite_sub (isFinite_mul (isFinite_add h).2).1
  have hlow := unitsOf_mono (isNaN_of_isFinite hflo) hx hlo
  have hhigh := unitsOf_mono hx (isNaN_of_isFinite hfhi) hhi
  have hfx : x.isFinite = true := isFinite_of_unitsOf hflo hfhi hx hlow hhigh
  constructor
  · obtain ⟨hpos, hle⟩ := unitsOf_sub_between hflo hfx hfhi hlow hhigh
    exact isFinite_stretch (unitsOf_sub hfx hflo).1 hpos hle h
  · apply isFinite_stretch (unitsOf_sub hfhi hfx).1 _ _ h
    · rw [← unitsOf_sub_self hfx]
      exact unitsOf_sub_mono hfx hfx hfhi hfx hhigh le_rfl
    · exact unitsOf_sub_mono hfhi hfx hfhi hflo le_rfl hlow

lemma isNaN_of_isFinite_above (h : (w + (x - lo) * s).isFinite = true) : x.isNaN = false :=
  isNaN_of_isFinite (isFinite_sub (isFinite_mul (isFinite_add h).2).1).1

lemma isNaN_of_isFinite_below (h : (w + (hi - x) * s).isFinite = true) : x.isNaN = false :=
  isNaN_of_isFinite (isFinite_sub (isFinite_mul (isFinite_add h).2).1).2

end Binary64

open Binary64

namespace Surface

variable {s : Surface Float} {b : Bounds Float} {factor p : Point Float}

/-- The corner of the box that is placed farthest from the one at the margins. -/
def farCorner (s : Surface Float) (b : Bounds Float) : Point Float :=
  let factor := b.scale s.innerWidth s.innerHeight
  (s.margin + b.width * factor.1, s.margin + b.height * factor.2)

lemma isNumber_of_isFinite_place (h : (s.place b factor p).IsFinite) : p.IsNumber := by
  obtain ⟨hx, hy⟩ := h
  refine ⟨isNaN_of_isFinite_above hx, ?_⟩
  unfold place at hy
  cases hflip : s.flip with
  | true =>
    rw [hflip] at hy
    exact isNaN_of_isFinite_below hy
  | false =>
    rw [hflip] at hy
    exact isNaN_of_isFinite_above hy

/-- What is drawn within a box is placed at numbers just if it is drawn at numbers, and the far corner
of the box is placed at one. -/
lemma isFinite_place_iff {ps : List (Point Float)} (htight : b.Tight ps)
    (hinside : (∀ p ∈ ps, p.IsNumber) → ∀ p ∈ ps, b.contains p = true) :
    (∀ p ∈ ps, (s.place b (b.scale s.innerWidth s.innerHeight) p).IsFinite) ↔
      (∀ p ∈ ps, p.IsNumber) ∧ (s.farCorner b).IsFinite := by
  constructor
  · intro h
    refine ⟨fun p hp => isNumber_of_isFinite_place (h p hp), ?_, ?_⟩
    · obtain ⟨p, hp, hside⟩ := htight.maxX
      have hx := (h p hp).1
      rwa [place, hside] at hx
    · -- The far side of the box is its lower one on a surface that is flipped.
      cases hflip : s.flip with
      | true =>
        obtain ⟨p, hp, hside⟩ := htight.minY
        have hy := (h p hp).2
        rwa [place, hflip, hside] at hy
      | false =>
        obtain ⟨p, hp, hside⟩ := htight.maxY
        have hy := (h p hp).2
        rwa [place, hflip, hside] at hy
  · rintro ⟨hnumber, hfarX, hfarY⟩ p hp
    obtain ⟨hx, hy⟩ := hnumber p hp
    obtain ⟨hminX, hmaxX, hminY, hmaxY⟩ := Bounds.contains_iff.mp (hinside hnumber p hp)
    refine ⟨(isFinite_axis hminX hmaxX hx hfarX).1, ?_⟩
    unfold place
    cases s.flip with
    | true => exact (isFinite_axis hminY hmaxY hy hfarY).2
    | false => exact (isFinite_axis hminY hmaxY hy hfarY).1

end Surface

end Lindenmayer
