import Lindenmayer.Proofs.Turtle.Run
import Mathlib.Data.Int.ModEq
import Mathlib.NumberTheory.Zsqrtd.GaussianInt

/-! Quarter turns, exactly. Headings are counted in quarter turns and places are whole, so the plane is
that of the Gaussian integers and a heading is a power of the imaginary unit. Where nothing is saved, a
walk is told by its stance: the place and the heading. -/

namespace Lindenmayer

/-- The unit step after some quarter turns from the first axis. -/
def quarterStride (heading : ℤ) : Point ℤ :=
  if heading % 4 = 0 then (1, 0)
  else if heading % 4 = 1 then (0, 1)
  else if heading % 4 = 2 then (-1, 0)
  else (0, -1)

instance : Compass ℤ := ⟨fun heading => some (quarterStride heading)⟩

def quarterTrace (cs : List Command) : Except WalkError (Drawing ℤ) := draw 1 cs

namespace Walk

variable {α : Type} [Add α] [Sub α] [LT α] [DecidableLT α] [Compass α]

/-- The steps forward that a walk makes, each from where it starts to where it ends. -/
def moves (turn : α) (s : Walk α) : List Command → List (Point α × Point α)
  | [] => []
  | c :: cs =>
    match s.step turn 0 c with
    | .error _ => []
    | .ok s₁ =>
      (if c = .forward then [(s.pose.position, s₁.pose.position)] else []) ++ s₁.moves turn cs

lemma Step.moves_cons {turn : α} {s s₁ : Walk α} {c : Command} (h : Step turn s c s₁)
    (cs : List Command) :
    s.moves turn (c :: cs) =
      (if c = .forward then [(s.pose.position, s₁.pose.position)] else []) ++ s₁.moves turn cs := by
  rw [moves, (step_eq_ok_iff 0).mpr h]

end Walk

def quarterMoves (cs : List Command) : List (Point ℤ × Point ℤ) := Walk.start.moves 1 cs

/-- The origin, and where each step forward ends. -/
def quarterStops (cs : List Command) : List (Point ℤ) := (0, 0) :: (quarterMoves cs).map Prod.snd

def Point.gaussian (p : Point ℤ) : GaussianInt := ⟨p.1, p.2⟩

lemma Point.gaussian_injective : Function.Injective Point.gaussian := by
  rintro ⟨x, y⟩ ⟨x', y'⟩ h
  obtain ⟨rfl, rfl⟩ := Zsqrtd.ext_iff.mp h
  rfl

def imaginaryUnit : GaussianIntˣ := ⟨⟨0, 1⟩, ⟨0, -1⟩, by decide, by decide⟩

def direction (heading : ℤ) : GaussianInt := ↑(imaginaryUnit ^ heading)

section Direction

lemma direction_add (h k : ℤ) : direction (h + k) = direction h * direction k := by
  rw [direction, zpow_add, Units.val_mul, direction, direction]

@[simp] lemma direction_zero : direction 0 = 1 := by simp [direction]

@[simp] lemma direction_one : direction 1 = ⟨0, 1⟩ := by simp [direction, imaginaryUnit]

@[simp] lemma direction_neg_one : direction (-1) = ⟨0, -1⟩ := by simp [direction, imaginaryUnit]

lemma direction_of_modEq {h k : ℤ} (hhk : h ≡ k [ZMOD 4]) : direction h = direction k := by
  obtain ⟨m, hm⟩ := hhk.dvd
  have hfour : imaginaryUnit ^ (4 : ℤ) = 1 := by decide
  rw [show k = h + 4 * m by omega, direction_add, direction, direction, zpow_mul, hfour, one_zpow,
    Units.val_one, mul_one]

lemma gaussian_quarterStride (h : ℤ) : (quarterStride h).gaussian = direction h := by
  rw [direction_of_modEq (Int.mod_modEq h 4).symm]
  have hlow : 0 ≤ h % 4 := Int.emod_nonneg h (by decide)
  have hhigh : h % 4 < 4 := Int.emod_lt_of_pos h (by decide)
  unfold quarterStride
  generalize h % 4 = r at hlow hhigh
  obtain rfl | rfl | rfl | rfl : r = 0 ∨ r = 1 ∨ r = 2 ∨ r = 3 := by omega
  all_goals decide

end Direction

@[ext]
structure Stance where
  place : GaussianInt
  heading : ℤ

def Pose.stance (p : Pose ℤ) : Stance := ⟨p.position.gaussian, p.heading⟩

lemma Pose.stance_injective : Function.Injective Pose.stance := by
  rintro ⟨x, y, heading⟩ ⟨x', y', heading'⟩ h
  obtain ⟨hplace, rfl⟩ := Stance.ext_iff.mp h
  obtain ⟨rfl, rfl⟩ := Prod.ext_iff.mp (Point.gaussian_injective hplace)
  rfl

namespace Stance

variable {s t : Stance} {c : Command} {cs ds : List Command}

def origin : Stance := ⟨0, 0⟩

def obey (s : Stance) : Command → Stance
  | .forward => ⟨s.place + direction s.heading, s.heading⟩
  | .left => ⟨s.place, s.heading + 1⟩
  | .right => ⟨s.place, s.heading - 1⟩
  | .save | .restore | .idle => s

def follow (s : Stance) (cs : List Command) : Stance := cs.foldl obey s

/-- The steps forward from a stance on. -/
def legs (s : Stance) : List Command → List (GaussianInt × GaussianInt)
  | [] => []
  | c :: cs => (if c = .forward then [(s.place, (s.obey c).place)] else []) ++ (s.obey c).legs cs

/-- The places that a walk comes to with its steps forward, and the one where it begins. -/
def stops (s : Stance) (cs : List Command) : List GaussianInt := s.place :: (s.legs cs).map Prod.snd

@[simp] lemma follow_nil (s : Stance) : s.follow [] = s := rfl

@[simp] lemma follow_cons (s : Stance) (c : Command) (cs : List Command) :
    s.follow (c :: cs) = (s.obey c).follow cs := rfl

@[simp] lemma follow_append (s : Stance) (cs ds : List Command) :
    s.follow (cs ++ ds) = (s.follow cs).follow ds := List.foldl_append

lemma legs_append (s : Stance) (cs ds : List Command) :
    s.legs (cs ++ ds) = s.legs cs ++ (s.follow cs).legs ds := by
  induction cs generalizing s with
  | nil => rfl
  | cons c cs ih => rw [List.cons_append, legs, ih, legs, follow_cons, List.append_assoc]

lemma heading_follow (s : Stance) (cs : List Command) :
    (s.follow cs).heading = s.heading + (cs.count .left - cs.count .right) := by
  induction cs generalizing s with
  | nil => simp
  | cons c cs ih =>
    rw [follow_cons, ih]
    cases c <;> simp [obey] <;> omega

section Carry

/-- The stance that is `t` if `s` is taken for the origin. -/
def carry (s t : Stance) : Stance := ⟨s.place + direction s.heading * t.place, s.heading + t.heading⟩

@[simp] lemma carry_origin (s : Stance) : s.carry origin = s := by
  simp [carry, origin]

lemma carry_obey (s t : Stance) (c : Command) : (s.carry t).obey c = s.carry (t.obey c) := by
  cases c with
  | forward => simp only [obey, carry, direction_add, mul_add, add_assoc]
  | left => simp only [obey, carry, add_assoc]
  | right => simp only [obey, carry, add_sub_assoc]
  | save | restore | idle => rfl

lemma carry_follow (s t : Stance) (cs : List Command) :
    (s.carry t).follow cs = s.carry (t.follow cs) := by
  induction cs generalizing t with
  | nil => rfl
  | cons c cs ih => rw [follow_cons, carry_obey, ih, follow_cons]

/-- A walk is the same everywhere, but for where and in what direction it begins. -/
lemma follow_eq_carry (s : Stance) (cs : List Command) :
    s.follow cs = s.carry (origin.follow cs) := by
  rw [← carry_follow, carry_origin]

lemma carry_legs (s t : Stance) (cs : List Command) :
    (s.carry t).legs cs =
      (t.legs cs).map (Prod.map (fun z => s.place + direction s.heading * z)
        fun z => s.place + direction s.heading * z) := by
  induction cs generalizing t with
  | nil => rfl
  | cons c cs ih =>
    rw [legs, legs, carry_obey, ih, List.map_append]
    split <;> rfl

end Carry

end Stance

namespace Walk

variable {s s₁ : Walk ℤ} {c : Command} {cs : List Command}

lemma exists_step (s : Walk ℤ) (hc : c ≠ .restore) : ∃ s₁, Step 1 s c s₁ := by
  cases c with
  | idle => exact ⟨_, .idle⟩
  | left => exact ⟨_, .left⟩
  | right => exact ⟨_, .right⟩
  | save => exact ⟨_, .save⟩
  | restore => exact absurd rfl hc
  | forward => exact ⟨_, .forward rfl⟩

lemma Step.stance (h : Step 1 s c s₁) (hc : c ≠ .restore) :
    s₁.pose.stance = s.pose.stance.obey c := by
  cases h with
  | idle | left | right | save => rfl
  | restore => exact absurd rfl hc
  | forward hd =>
    obtain rfl := Option.some.inj hd
    change Stance.mk _ _ = Stance.mk (_ + direction s.pose.heading) _
    rw [← gaussian_quarterStride]
    rfl

/-- A walk that restores nothing goes on to the end, as its stance tells. -/
lemma exists_run (s : Walk ℤ) (hcs : ∀ c ∈ cs, c ≠ .restore) :
    ∃ s₁, Run 1 s cs s₁ ∧ s₁.pose.stance = s.pose.stance.follow cs ∧
      (s.moves 1 cs).map (Prod.map Point.gaussian Point.gaussian) = s.pose.stance.legs cs := by
  induction cs generalizing s with
  | nil => exact ⟨s, .nil s, rfl, rfl⟩
  | cons c cs ih =>
    obtain ⟨hc, hcs⟩ := List.forall_mem_cons.mp hcs
    obtain ⟨s₁, hstep⟩ := s.exists_step hc
    have hstance := hstep.stance hc
    obtain ⟨s₂, hrun, hend, hmoves⟩ := ih s₁ hcs
    refine ⟨s₂, .cons hstep hrun, ?_, ?_⟩
    · rw [hend, hstance, Stance.follow_cons]
    · rw [hstep.moves_cons, List.map_append, hmoves, hstance, Stance.legs, ← hstance]
      split <;> rfl

end Walk

end Lindenmayer
