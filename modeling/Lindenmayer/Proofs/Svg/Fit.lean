import Lindenmayer.Proofs.Svg.Document
import Lindenmayer.Proofs.Turtle.Box
import Mathlib.Algebra.Order.Field.Rat
import Mathlib.Tactic.Linarith
import Mathlib.Tactic.Ring

/-! Fitting in exact numbers. The box is laid on the room inside the margins, end on end, and a box without
extent is laid on the margin. Nothing is divided by zero: the same is fitted in numbers that are lost by
such a division. -/

namespace Lindenmayer

/-- Rational numbers, and what is no number: a quotient by zero, and all that is made of one. -/
inductive Checked
  | number (q : ℚ)
  | undefined

namespace Checked

instance {n : ℕ} [OfNat ℚ n] : OfNat Checked n := ⟨number (OfNat.ofNat n)⟩

def lift (f : ℚ → ℚ → ℚ) : Checked → Checked → Checked
  | number p, number q => number (f p q)
  | _, _ => undefined

instance : Add Checked := ⟨lift (· + ·)⟩

instance : Sub Checked := ⟨lift (· - ·)⟩

instance : Mul Checked := ⟨lift (· * ·)⟩

def quotient : Checked → Checked → Checked
  | number p, number q => if q = 0 then undefined else number (p / q)
  | _, _ => undefined

instance : Div Checked := ⟨quotient⟩

def less : Checked → Checked → Bool
  | number p, number q => p < q
  | _, _ => false

instance : LT Checked := ⟨fun a b => less a b = true⟩

instance : DecidableLT Checked := fun a b => inferInstanceAs (Decidable (less a b = true))

lemma number_lt_iff (p q : ℚ) : number p < number q ↔ p < q := decide_eq_true_iff

lemma number_div (p : ℚ) {q : ℚ} (h : q ≠ 0) : number p / number q = number (p / q) := if_neg h

end Checked

open Checked (number)

def Surface.checked (s : Surface ℚ) : Surface Checked :=
  ⟨number s.width, number s.height, number s.margin, s.flip⟩

def Bounds.checked (b : Bounds ℚ) : Bounds Checked :=
  ⟨number b.minX, number b.maxX, number b.minY, number b.maxY⟩

def checkedPaths (paths : List (Path ℚ)) : List (Path Checked) :=
  paths.map fun path => path.map (Prod.map number number)

lemma stretch_number (extent length : ℚ) :
    stretch (number extent) (number length) = number (stretch extent length) := by
  unfold stretch
  have hiff : 0 < number extent ↔ 0 < extent := Checked.number_lt_iff 0 extent
  by_cases h : 0 < extent
  · rw [if_pos h, if_pos (hiff.mpr h), Checked.number_div length h.ne']
  · rw [if_neg h, if_neg (mt hiff.mp h)]
    rfl

namespace Surface

lemma hasRoom_checked (s : Surface ℚ) : s.checked.hasRoom = s.hasRoom := by
  have hwidth : 0 < s.checked.innerWidth ↔ 0 < s.innerWidth := Checked.number_lt_iff 0 _
  have hheight : 0 < s.checked.innerHeight ↔ 0 < s.innerHeight := Checked.number_lt_iff 0 _
  simp only [hasRoom, hwidth, hheight]

lemma place_checked (s : Surface ℚ) (b : Bounds ℚ) (factor p : Point ℚ) :
    s.checked.place b.checked (Prod.map number number factor) (Prod.map number number p) =
      Prod.map number number (s.place b factor p) := by
  obtain ⟨width, height, margin, flip⟩ := s
  cases flip <;> rfl

lemma scale_checked (b : Bounds ℚ) (width height : ℚ) :
    b.checked.scale (number width) (number height) =
      Prod.map number number (b.scale width height) :=
  Prod.ext (stretch_number b.width width) (stretch_number b.height height)

/-- What is fitted in checked numbers is what is fitted in exact ones. -/
lemma fit_checked (s : Surface ℚ) (paths : List (Path ℚ)) (b : Bounds ℚ) :
    s.checked.fit (checkedPaths paths) b.checked = (s.fit paths b).map checkedPaths := by
  have hfactor : b.checked.scale s.checked.innerWidth s.checked.innerHeight =
      Prod.map number number (b.scale s.innerWidth s.innerHeight) := scale_checked b _ _
  unfold fit
  rw [hasRoom_checked]
  cases s.hasRoom with
  | false => rfl
  | true =>
    simp only [if_true, Option.map_some, checkedPaths, List.map_map, Function.comp_def, hfactor,
      place_checked]

end Surface

/-- Where a coordinate comes to lie, with the lower end of its axis at the margin. -/
def rising (margin lo factor x : ℚ) : ℚ := margin + (x - lo) * factor

/-- Where a coordinate comes to lie, with the upper end of its axis at the margin. -/
def falling (margin hi factor x : ℚ) : ℚ := margin + (hi - x) * factor

section Axis

variable {margin lo hi factor length x : ℚ}

lemma stretch_pos (extent : ℚ) (h : 0 < length) : 0 < stretch extent length := by
  unfold stretch
  split
  · next hextent => exact div_pos h hextent
  · exact one_pos

lemma extent_mul_stretch (length : ℚ) (h : lo < hi) :
    (hi - lo) * stretch (hi - lo) length = length := by
  have hextent : 0 < hi - lo := sub_pos.mpr h
  rw [stretch, if_pos hextent, mul_div_cancel₀ length hextent.ne']

/-- An axis read backwards. -/
lemma falling_eq_rising (margin lo hi factor x : ℚ) :
    falling margin hi factor x = rising margin lo factor (lo + hi - x) := by
  unfold falling rising
  ring

lemma strictMono_rising (margin lo : ℚ) (h : 0 < factor) : StrictMono (rising margin lo factor) := by
  intro x y hxy
  have hstep : (x - lo) * factor < (y - lo) * factor := mul_lt_mul_of_pos_right (by linarith) h
  unfold rising
  linarith

lemma strictAnti_falling (margin hi : ℚ) (h : 0 < factor) : StrictAnti (falling margin hi factor) := by
  intro x y hxy
  rw [falling_eq_rising margin 0, falling_eq_rising margin 0]
  exact strictMono_rising margin 0 h (by linarith)

@[simp] lemma rising_self (margin lo factor : ℚ) : rising margin lo factor lo = margin := by
  simp [rising]

@[simp] lemma falling_self (margin hi factor : ℚ) : falling margin hi factor hi = margin := by
  simp [falling]

lemma rising_end (margin length : ℚ) (h : lo < hi) :
    rising margin lo (stretch (hi - lo) length) hi = margin + length := by
  rw [rising, extent_mul_stretch length h]

lemma falling_end (margin length : ℚ) (h : lo < hi) :
    falling margin hi (stretch (hi - lo) length) lo = margin + length := by
  rw [falling, extent_mul_stretch length h]

lemma rising_add_falling (margin length x : ℚ) (h : lo < hi) :
    rising margin lo (stretch (hi - lo) length) x + falling margin hi (stretch (hi - lo) length) x =
      2 * margin + length := by
  set factor := stretch (hi - lo) length with hfactor
  calc
    rising margin lo factor x + falling margin hi factor x = 2 * margin + (hi - lo) * factor := by
      unfold rising falling
      ring
    _ = 2 * margin + length := by rw [hfactor, extent_mul_stretch length h]

lemma rising_mem (hlength : 0 < length) (hlo : lo ≤ x) (hhi : x ≤ hi) :
    margin ≤ rising margin lo (stretch (hi - lo) length) x ∧
      rising margin lo (stretch (hi - lo) length) x ≤ margin + length := by
  have hmono := (strictMono_rising margin lo (stretch_pos (hi - lo) hlength)).monotone
  constructor
  · simpa using hmono hlo
  · rcases (hlo.trans hhi).lt_or_eq with h | rfl
    · rw [← rising_end margin length h]
      exact hmono hhi
    · obtain rfl := le_antisymm hhi hlo
      rw [rising_self]
      linarith

lemma falling_mem (hlength : 0 < length) (hlo : lo ≤ x) (hhi : x ≤ hi) :
    margin ≤ falling margin hi (stretch (hi - lo) length) x ∧
      falling margin hi (stretch (hi - lo) length) x ≤ margin + length := by
  rw [falling_eq_rising margin lo]
  exact rising_mem hlength (by linarith) (by linarith)

end Axis

namespace Surface

variable {s : Surface ℚ} {b : Bounds ℚ} {paths : List (Path ℚ)}

/-- How a box is fitted: each axis by a map of its own. -/
def column (s : Surface ℚ) (b : Bounds ℚ) : ℚ → ℚ :=
  rising s.margin b.minX (stretch b.width s.innerWidth)

def row (s : Surface ℚ) (b : Bounds ℚ) : ℚ → ℚ :=
  let factor := stretch b.height s.innerHeight
  if s.flip then falling s.margin b.maxY factor else rising s.margin b.minY factor

def mirrored (s : Surface ℚ) : Surface ℚ := { s with flip := !s.flip }

lemma place_eq (s : Surface ℚ) (b : Bounds ℚ) :
    s.place b (b.scale s.innerWidth s.innerHeight) = Prod.map (s.column b) (s.row b) := by
  obtain ⟨width, height, margin, flip⟩ := s
  cases flip <;> rfl

lemma hasRoom_iff : s.hasRoom = true ↔ 0 < s.innerWidth ∧ 0 < s.innerHeight := by
  simp [hasRoom]

lemma fit_eq_map (h : s.hasRoom = true) :
    s.fit paths b = some (paths.map (·.map (Prod.map (s.column b) (s.row b)))) := by
  rw [fit_eq_some_iff, ← place_eq]
  exact ⟨h, rfl⟩

lemma row_add_mirrored (hy : b.minY < b.maxY) (y : ℚ) :
    s.row b y + s.mirrored.row b y = s.height := by
  have hsum := rising_add_falling s.margin s.innerHeight y hy
  have hheight : 2 * s.margin + s.innerHeight = s.height := by
    unfold innerHeight
    ring
  rw [← hheight, ← hsum]
  obtain ⟨width, height, margin, flip⟩ := s
  cases flip with
  | true => exact add_comm _ _
  | false => rfl

lemma place_mem (h : s.hasRoom = true) {p : Point ℚ} (hp : b.contains p = true) :
    s.margin ≤ s.column b p.1 ∧ s.column b p.1 ≤ s.width - s.margin ∧
      s.margin ≤ s.row b p.2 ∧ s.row b p.2 ≤ s.height - s.margin := by
  obtain ⟨hwidth, hheight⟩ := hasRoom_iff.mp h
  obtain ⟨hminX, hmaxX, hminY, hmaxY⟩ := Bounds.contains_iff.mp hp
  have hright : s.margin + s.innerWidth = s.width - s.margin := by
    unfold innerWidth
    ring
  have hbottom : s.margin + s.innerHeight = s.height - s.margin := by
    unfold innerHeight
    ring
  rw [← hright, ← hbottom, ← and_assoc]
  refine ⟨rising_mem hwidth hminX hmaxX, ?_⟩
  unfold row
  cases s.flip with
  | true => exact falling_mem hheight hminY hmaxY
  | false => exact rising_mem hheight hminY hmaxY

lemma column_laid (h : s.hasRoom = true) (hx : b.minX < b.maxX) :
    StrictMono (s.column b) ∧ s.column b b.minX = s.margin ∧
      s.column b b.maxX = s.width - s.margin := by
  obtain ⟨hwidth, -⟩ := hasRoom_iff.mp h
  refine ⟨strictMono_rising _ _ (stretch_pos _ hwidth), rising_self _ _ _, ?_⟩
  rw [column, Bounds.width, rising_end _ _ hx, innerWidth]
  ring

lemma row_laid (h : s.hasRoom = true) (hy : b.minY < b.maxY) :
    if s.flip then StrictAnti (s.row b) ∧ s.row b b.maxY = s.margin ∧
        s.row b b.minY = s.height - s.margin
      else StrictMono (s.row b) ∧ s.row b b.minY = s.margin ∧
        s.row b b.maxY = s.height - s.margin := by
  obtain ⟨-, hheight⟩ := hasRoom_iff.mp h
  have hfactor := stretch_pos b.height hheight
  have hbottom : s.margin + s.innerHeight = s.height - s.margin := by
    unfold innerHeight
    ring
  unfold row
  rw [← hbottom]
  cases s.flip with
  | true => exact ⟨strictAnti_falling _ _ hfactor, falling_self _ _ _, falling_end _ _ hy⟩
  | false => exact ⟨strictMono_rising _ _ hfactor, rising_self _ _ _, rising_end _ _ hy⟩

lemma column_of_flat (hx : b.minX = b.maxX) {p : Point ℚ} (hp : b.contains p = true) :
    s.column b p.1 = s.margin := by
  obtain ⟨hminX, hmaxX, -, -⟩ := Bounds.contains_iff.mp hp
  rw [le_antisymm (hmaxX.trans hx.ge) hminX]
  exact rising_self _ _ _

lemma row_of_flat (hy : b.minY = b.maxY) {p : Point ℚ} (hp : b.contains p = true) :
    s.row b p.2 = s.margin := by
  obtain ⟨-, -, hminY, hmaxY⟩ := Bounds.contains_iff.mp hp
  have hp : p.2 = b.minY := le_antisymm (hmaxY.trans hy.ge) hminY
  unfold row
  cases s.flip with
  | true =>
    rw [hp, hy]
    exact falling_self _ _ _
  | false =>
    rw [hp]
    exact rising_self _ _ _

/-- A drawing within its box is fitted if there is room inside the margins. Each axis of the box is then
laid on its room, end on end and turned if the surface is flipped, and one without extent on the margin. -/
theorem fit_lays_box (s : Surface ℚ) (b : Bounds ℚ) (paths : List (Path ℚ))
    (hpaths : ∀ p ∈ paths.flatten, b.contains p = true) :
    (s.fit paths b = none ↔ s.width - 2 * s.margin ≤ 0 ∨ s.height - 2 * s.margin ≤ 0) ∧
    s.checked.fit (checkedPaths paths) b.checked = (s.fit paths b).map checkedPaths ∧
    ∀ placed, s.fit paths b = some placed →
      (∀ p ∈ placed.flatten, s.margin ≤ p.1 ∧ p.1 ≤ s.width - s.margin ∧
        s.margin ≤ p.2 ∧ p.2 ≤ s.height - s.margin) ∧
      ∃ column row mirrored : ℚ → ℚ,
        placed = paths.map (·.map (Prod.map column row)) ∧
        s.mirrored.fit paths b = some (paths.map (·.map (Prod.map column mirrored))) ∧
        (b.minX < b.maxX → StrictMono column ∧ column b.minX = s.margin ∧
          column b.maxX = s.width - s.margin) ∧
        (b.minX = b.maxX → ∀ p ∈ paths.flatten, column p.1 = s.margin) ∧
        (b.minY < b.maxY → (∀ y, row y + mirrored y = s.height) ∧
          if s.flip then StrictAnti row ∧ row b.maxY = s.margin ∧ row b.minY = s.height - s.margin
          else StrictMono row ∧ row b.minY = s.margin ∧ row b.maxY = s.height - s.margin) ∧
        (b.minY = b.maxY → ∀ p ∈ paths.flatten, row p.2 = s.margin) := by
  refine ⟨?none, fit_checked s paths b, fun placed hplaced => ?some⟩
  case none =>
    have hroom : s.hasRoom = true ↔ 0 < s.width - 2 * s.margin ∧ 0 < s.height - 2 * s.margin :=
      hasRoom_iff
    rw [fit_eq_none_iff, ← Bool.not_eq_true, hroom, not_and_or, not_lt, not_lt]
  case some =>
    obtain ⟨hroom, -⟩ := fit_eq_some_iff.mp hplaced
    obtain rfl := Option.some.inj (hplaced.symm.trans (fit_eq_map hroom))
    refine ⟨?_, s.column b, s.row b, s.mirrored.row b, rfl, fit_eq_map hroom, column_laid hroom,
      fun hx p hp => column_of_flat hx (hpaths p hp), fun hy => ⟨row_add_mirrored hy, row_laid hroom hy⟩,
      fun hy p hp => row_of_flat hy (hpaths p hp)⟩
    rw [← List.map_flatten, List.forall_mem_map]
    exact fun p hp => place_mem hroom (hpaths p hp)

theorem fit_lays_box_flipped :
    (∀ p ∈ [[(-1, -3), (3, 5)], [(0, 0)]].flatten, (⟨-1, 3, -3, 5⟩ : Bounds ℚ).contains p = true) ∧
    ∃ placed, (⟨120, 100, 10, true⟩ : Surface ℚ).fit [[(-1, -3), (3, 5)], [(0, 0)]] ⟨-1, 3, -3, 5⟩ =
        some placed ∧ placed = [[(10, 90), (110, 10)], [(35, 60)]] ∧
      ∀ p ∈ placed.flatten, 10 ≤ p.1 ∧ p.1 ≤ 120 - 10 ∧ 10 ≤ p.2 ∧ p.2 ≤ 100 - 10 := by
  have hpaths : ∀ p ∈ [[(-1, -3), (3, 5)], [(0, 0)]].flatten,
      (⟨-1, 3, -3, 5⟩ : Bounds ℚ).contains p = true := by decide +kernel
  have hfit : (⟨120, 100, 10, true⟩ : Surface ℚ).fit [[(-1, -3), (3, 5)], [(0, 0)]] ⟨-1, 3, -3, 5⟩ =
      some [[(10, 90), (110, 10)], [(35, 60)]] := by decide +kernel
  exact ⟨hpaths, _, hfit, rfl, ((fit_lays_box _ _ _ hpaths).2.2 _ hfit).1⟩

end Surface

end Lindenmayer
