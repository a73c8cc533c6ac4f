import Lindenmayer.Grammar.Catalog
import Lindenmayer.Proofs.Grammar.Unbranched
import Mathlib.Algebra.Field.ZMod
import Mathlib.Data.List.Nodup
import Mathlib.Data.Sym.Sym2

/-! The dragon curve. Rewriting unfolds each step into two at a right angle, to the left and to the
right in turns, in a plane scaled by `1 + i`. Which of the two it is can be read off the place where the
step begins, so that a half of a step tells of which step and of which of its ends it is. This is why no
edge is walked twice. -/

namespace Lindenmayer

namespace Dragon

/-- The sum of the coordinates, modulo two. -/
def parity : GaussianInt →+* ZMod 2 := Zsqrtd.lift ⟨1, by decide⟩

lemma parity_direction (heading : ℤ) : parity (direction heading) = 1 := by
  have hunit : IsUnit (parity (direction heading)) := (Units.isUnit _).map parity
  generalize parity (direction heading) = k at hunit
  revert k
  decide

def unfolding : GaussianInt := ⟨1, 1⟩

lemma parity_unfolding : parity unfolding = 0 := by decide

lemma unfolding_ne_zero : unfolding ≠ 0 := by decide

/-- How the half of a step at `z` is turned. -/
def slant (z : GaussianInt) : GaussianInt := if parity z = 0 then 1 else direction 1

lemma slant_of_even {z : GaussianInt} (hz : parity z = 0) : slant z = 1 := if_pos hz

lemma slant_of_odd {z : GaussianInt} (hz : parity z = 1) : slant z = direction 1 :=
  if_neg (by rw [hz]; decide)

lemma parity_slant (z : GaussianInt) : parity (slant z) = 1 := by
  unfold slant
  split
  · exact map_one parity
  · exact parity_direction 1

lemma slant_ne_zero (z : GaussianInt) : slant z ≠ 0 := by
  intro h
  have hone := parity_slant z
  rw [h, map_zero] at hone
  exact absurd hone (by decide)

/-- The half at `z` of the step between `z` and `y`, after the unfolding. -/
def half (z y : GaussianInt) : Sym2 GaussianInt :=
  s(unfolding * z, unfolding * z + slant z * (y - z))

lemma half_inj {z y z' y' : GaussianInt} (hy' : parity (y' - z') = 1) (h : half z y = half z' y') :
    z = z' ∧ y = y' := by
  rcases Sym2.eq_iff.mp h with ⟨hplace, hend⟩ | ⟨hcross, -⟩
  · obtain rfl := mul_left_cancel₀ unfolding_ne_zero hplace
    have hstep := mul_left_cancel₀ (slant_ne_zero z) (add_left_cancel hend)
    exact ⟨rfl, sub_left_inj.mp hstep⟩
  · -- The middle of an unfolded step is odd, its ends are even.
    have hparity := congrArg parity hcross
    simp only [map_add, map_mul, parity_unfolding, parity_slant, hy', zero_mul, one_mul,
      zero_add] at hparity
    exact absurd hparity (by decide)

def edge (leg : GaussianInt × GaussianInt) : Sym2 GaussianInt := s(leg.1, leg.2)

def halves (leg : GaussianInt × GaussianInt) : List (Sym2 GaussianInt) :=
  [half leg.1 leg.2, half leg.2 leg.1]

/-- A half tells of the end that it is at and of the other one. -/
lemma exists_half {leg : GaussianInt × GaussianInt} (hleg : parity (leg.2 - leg.1) = 1)
    {e : Sym2 GaussianInt} (he : e ∈ halves leg) :
    ∃ z y, edge leg = s(z, y) ∧ e = half z y ∧ parity (y - z) = 1 := by
  rcases List.mem_pair.mp he with rfl | rfl
  · exact ⟨leg.1, leg.2, rfl, rfl, hleg⟩
  · refine ⟨leg.2, leg.1, Sym2.eq_swap, rfl, ?_⟩
    rw [← neg_sub, map_neg, hleg]
    decide

lemma nodup_halves {legs : List (GaussianInt × GaussianInt)}
    (hlegs : ∀ leg ∈ legs, parity (leg.2 - leg.1) = 1) (hedges : (legs.map edge).Nodup) :
    (legs.flatMap halves).Nodup := by
  rw [List.nodup_flatMap]
  constructor
  · intro leg hleg
    refine List.nodup_cons.mpr ⟨fun h => ?_, List.nodup_singleton _⟩
    have hone := hlegs leg hleg
    obtain ⟨hends, -⟩ := half_inj hone (List.mem_singleton.mp h).symm
    rw [hends, sub_self, map_zero] at hone
    exact absurd hone (by decide)
  · refine (List.pairwise_map.mp hedges).imp_of_mem fun {leg leg'} hleg hleg' hne e he he' => ?_
    obtain ⟨z, y, hedge, rfl, -⟩ := exists_half (hlegs leg hleg) he
    obtain ⟨z', y', hedge', hhalf, hparity⟩ := exists_half (hlegs leg' hleg') he'
    obtain ⟨rfl, rfl⟩ := half_inj hparity hhalf
    exact hne (hedge.trans hedge'.symm)

lemma slant_add_slant (z : GaussianInt) (heading : ℤ) :
    slant z + slant (z + direction heading) = unfolding := by
  unfold slant
  rw [map_add, parity_direction]
  generalize parity z = k
  revert k
  decide

lemma unfolding_mul_direction (heading : ℤ) :
    unfolding * direction heading = direction heading + direction (heading + 1) := by
  rw [direction_add, direction_one, show unfolding = 1 + ⟨0, 1⟩ from rfl]
  ring

/-- The two halves of a step meet at its middle. -/
lemma halves_step (z : GaussianInt) (heading : ℤ) :
    halves (z, z + direction heading) =
      [s(unfolding * z, unfolding * z + slant z * direction heading),
        s(unfolding * z + slant z * direction heading, unfolding * (z + direction heading))] := by
  have hmiddle : unfolding * (z + direction heading) +
      slant (z + direction heading) * (z - (z + direction heading)) =
        unfolding * z + slant z * direction heading := by
    rw [← slant_add_slant z heading]
    ring
  rw [halves, half, half, hmiddle, add_sub_cancel_left, Sym2.eq_swap (a := unfolding * (z + _))]

lemma parity_leg {s : Stance} {cs : List Command} {leg : GaussianInt × GaussianInt}
    (hleg : leg ∈ s.legs cs) : parity (leg.2 - leg.1) = 1 := by
  induction cs generalizing s with
  | nil => cases hleg
  | cons c cs ih =>
    rw [Stance.legs, List.mem_append] at hleg
    rcases hleg with hleg | hleg
    · split at hleg
      · next hc =>
        obtain rfl := List.mem_singleton.mp hleg
        rw [hc]
        simp only [Stance.obey, add_sub_cancel_left, parity_direction]
      · cases hleg
    · exact ih hleg

end Dragon

open Dragon Stance

namespace Stance

/-- The stance after the unfolding. At an odd place the turtle has turned around. -/
def unfolded (s : Stance) : Stance :=
  ⟨unfolding * s.place, s.heading + if parity s.place = 0 then 0 else 2⟩

lemma unfolded_of_even {s : Stance} (hs : parity s.place = 0) :
    s.unfolded = ⟨unfolding * s.place, s.heading⟩ := by
  rw [unfolded, if_pos hs, add_zero]

lemma unfolded_of_odd {s : Stance} (hs : parity s.place = 1) :
    s.unfolded = ⟨unfolding * s.place, s.heading + 2⟩ := by
  rw [unfolded, if_neg (by rw [hs]; decide)]

lemma parity_forward (s : Stance) : parity (s.obey .forward).place = parity s.place + 1 := by
  rw [obey, map_add, parity_direction]

/-- Rewriting unfolds the walk of the word. -/
structure Unfolds (s : Stance) (w : Word) : Prop where
  follow : s.unfolded.follow (Word.commands (Catalog.dragon.rules.rewrite w)) =
    (s.follow w.commands).unfolded
  legs : (s.unfolded.legs (Word.commands (Catalog.dragon.rules.rewrite w))).map edge =
    (s.legs w.commands).flatMap halves

namespace Unfolds

variable {s : Stance} {u w : Word}

lemma append (hu : Unfolds s u) (hw : Unfolds (s.follow u.commands) w) : Unfolds s (u ++ w) := by
  constructor
  · rw [RuleTable.rewrite_append, Word.commands_append, Word.commands_append, follow_append,
      follow_append, hu.follow, hw.follow]
  · rw [RuleTable.rewrite_append, Word.commands_append, Word.commands_append, legs_append,
      legs_append, List.map_append, List.flatMap_append, hu.legs, hu.follow, hw.legs]

lemma left (s : Stance) : Unfolds s [.char '+'] := ⟨Stance.ext rfl (add_right_comm _ _ _), rfl⟩

lemma right (s : Stance) : Unfolds s [.char '-'] := ⟨Stance.ext rfl (add_sub_right_comm _ _ _), rfl⟩

lemma behind (hs : parity s.place = 0) : Unfolds s ['f', 'x'] := by
  have hodd : parity (s.obey .forward).place = 1 := by rw [parity_forward, hs, zero_add]
  constructor
  · change s.unfolded.follow [.forward, .idle, .left, .idle, .forward, .left] =
      (s.obey .forward).unfolded
    rw [unfolded_of_even hs, unfolded_of_odd hodd]
    simp [obey, mul_add, unfolding_mul_direction, add_assoc]
  · change (s.unfolded.legs [.forward, .idle, .left, .idle, .forward, .left]).map edge =
      halves (s.place, s.place + direction s.heading)
    rw [halves_step, slant_of_even hs, unfolded_of_even hs]
    simp [Stance.legs, obey, edge, mul_add, unfolding_mul_direction, add_assoc]

lemma before (hs : parity s.place = 1) : Unfolds s ['y', 'f'] := by
  have heven : parity (s.obey .forward).place = 0 := by
    rw [parity_forward, hs]
    decide
  have hturn : s.heading + 2 - 1 = s.heading + 1 := by omega
  constructor
  · change s.unfolded.follow [.right, .forward, .idle, .right, .idle, .forward] =
      (s.obey .forward).unfolded
    rw [unfolded_of_odd hs, unfolded_of_even heven]
    simp [obey, hturn, mul_add, unfolding_mul_direction, add_assoc, add_comm (direction s.heading)]
  · change (s.unfolded.legs [.right, .forward, .idle, .right, .idle, .forward]).map edge =
      halves (s.place, s.place + direction s.heading)
    rw [halves_step, slant_of_odd hs, unfolded_of_odd hs, ← direction_add, add_comm 1]
    simp [Stance.legs, obey, edge, hturn, mul_add, unfolding_mul_direction, add_assoc,
      add_comm (direction s.heading)]

end Unfolds

end Stance

/-- Words in which the steps come in turns with one symbol behind them and with the other in front. -/
inductive Folded : ZMod 2 → Word → Prop
  | nil (k) : Folded k []
  | left {k w} : Folded k w → Folded k ('+' :: w)
  | right {k w} : Folded k w → Folded k ('-' :: w)
  | behind {w} : Folded 1 w → Folded 0 ('f' :: 'x' :: w)
  | before {w} : Folded 0 w → Folded 1 ('y' :: 'f' :: w)

namespace Folded

variable {k : ZMod 2} {w : Word}

lemma rewrite (h : Folded k w) : Folded 0 (Catalog.dragon.rules.rewrite w) := by
  induction h with
  | nil => exact .nil 0
  | left _ ih => exact .left ih
  | right _ ih => exact .right ih
  | behind _ ih => exact .behind (.left (.before (.left ih)))
  | before _ ih => exact .right (.behind (.right (.before ih)))

lemma unfolds (h : Folded k w) {s : Stance} (hs : parity s.place = k) : Unfolds s w := by
  induction h generalizing s with
  | nil => exact ⟨rfl, rfl⟩
  | left _ ih => exact (Unfolds.left s).append (ih hs)
  | right _ ih => exact (Unfolds.right s).append (ih hs)
  | behind _ ih =>
    refine (Unfolds.behind hs).append (ih ?_)
    exact (parity_forward s).trans (by rw [hs, zero_add])
  | before _ ih =>
    refine (Unfolds.before hs).append (ih ?_)
    exact (parity_forward s).trans (by rw [hs]; decide)

end Folded

namespace Grammar

def dragonWord (n : ℕ) : Word := Catalog.dragon.rules.generation n Catalog.dragon.seed

lemma dragonWord_succ (n : ℕ) : dragonWord (n + 1) = Catalog.dragon.rules.rewrite (dragonWord n) :=
  RuleTable.generation_succ _ n _

lemma folded_dragonWord (n : ℕ) : Folded 0 (dragonWord n) := by
  induction n with
  | zero => exact .behind (.nil 1)
  | succ n ih =>
    rw [dragonWord_succ]
    exact ih.rewrite

lemma dragonWord_unfolds (n : ℕ) :
    (origin.follow (dragonWord (n + 1)).commands = (origin.follow (dragonWord n).commands).unfolded) ∧
      (origin.legs (dragonWord (n + 1)).commands).map edge =
        (origin.legs (dragonWord n).commands).flatMap halves := by
  have horigin : origin.unfolded = origin := by
    rw [unfolded_of_even (map_zero parity), origin, mul_zero]
  obtain ⟨hfollow, hlegs⟩ := (folded_dragonWord n).unfolds (s := origin) (map_zero parity)
  rw [horigin, ← dragonWord_succ] at hfollow hlegs
  exact ⟨hfollow, hlegs⟩

lemma place_dragonWord (n : ℕ) : (origin.follow (dragonWord n).commands).place = unfolding ^ n := by
  induction n with
  | zero => decide
  | succ n ih => rw [(dragonWord_unfolds n).1, unfolded, ih, pow_succ']

lemma length_legs_dragonWord (n : ℕ) : (origin.legs (dragonWord n).commands).length = 2 ^ n := by
  induction n with
  | zero => rfl
  | succ n ih =>
    have htwo : ∀ leg ∈ origin.legs (dragonWord n).commands, (halves leg).length = 2 :=
      fun _ _ => rfl
    rw [← List.length_map edge, (dragonWord_unfolds n).2, List.length_flatMap,
      List.map_congr_left htwo]
    simp [ih, pow_succ]

lemma nodup_edges_dragonWord (n : ℕ) :
    ((origin.legs (dragonWord n).commands).map edge).Nodup := by
  induction n with
  | zero => exact List.nodup_singleton _
  | succ n ih =>
    rw [(dragonWord_unfolds n).2]
    exact nodup_halves (fun _ => parity_leg) ih

lemma dragon_unbranched : Catalog.dragon.Unbranched := ⟨by decide, by decide⟩

/-- No generation of the dragon curve walks along an edge of the lattice twice, in whatever direction. -/
theorem dragon_never_retraces (n : ℕ) :
    ∃ w d, Catalog.dragon.Expands n w ∧ quarterTrace w.commands = .ok d ∧
      (quarterMoves w.commands).length = 2 ^ n ∧
      ((quarterMoves w.commands).map fun move => s(move.1, move.2)).Nodup ∧
      d.turtle.position.gaussian = ⟨1, 1⟩ ^ n := by
  obtain ⟨d, hd, hstance, hmoves⟩ := (dragon_unbranched.generation n).exists_quarterTrace
  refine ⟨_, d, expands_iff.mpr rfl, hd, ?_, ?_, ?_⟩
  · have hlength := length_legs_dragonWord n
    rw [dragonWord, ← hmoves, List.length_map] at hlength
    exact hlength
  · have hnodup := nodup_edges_dragonWord n
    rw [dragonWord, ← hmoves, List.map_map] at hnodup
    refine List.Nodup.of_map (Sym2.map Point.gaussian) ?_
    rw [List.map_map]
    exact hnodup
  · have hplace := place_dragonWord n
    rw [dragonWord, ← hstance] at hplace
    exact hplace

end Grammar

end Lindenmayer
