import Lindenmayer.Proofs.Binary64.Quotient
import Lindenmayer.Proofs.Decimal.Canonical
import Lindenmayer.Proofs.Svg.Document
import Lindenmayer.Proofs.Svg.Numerals
import Lindenmayer.Proofs.Turtle.Upright

/-! How the columns of a drawing are written. All of them have one numeral just if the far side of the box
is written as the margin is. A drawing that goes up and down only is no exception: in doubles its box has
a width as soon as there is a step, and so it is stretched. -/

namespace Lindenmayer

namespace Decimal

lemma fixed_eq_nan_iff {places : ℕ} {x : Float} : fixed places x = "nan".toList ↔ x.isNaN = true := by
  rw [Binary64.isNaN_iff_value]
  constructor
  · intro h
    cases hvalue : Binary64.value x with
    | nan => rfl
    | infinite negative =>
      rw [fixed, hvalue] at h
      change infinite negative = _ at h
      revert h
      cases negative <;> decide
    | finite negative mantissa exponent =>
      have hnumeral : IsNumeral (fixed places x) :=
        isNumeral_fixed_iff.mpr (Binary64.isFinite_of_value hvalue)
      rw [h] at hnumeral
      exact absurd hnumeral (by decide)
  · intro h
    rw [fixed, h]

end Decimal

open Binary64
open Decimal (fixed fixed_eq_of_between fixed_eq_of_unitsOf fixed_eq_nan_iff isNumeral_fixed_iff)

section Axis

variable {w lo x hi s : Float} {places : ℕ}

lemma isNaN_stretch {extent length : Float} (hextent : extent.isFinite = true)
    (hlength : length.isNaN = false) : (stretch extent length).isNaN = false := by
  unfold stretch
  split
  · next hpos =>
    rw [zero_lt_iff_unitsOf (isNaN_of_isFinite hextent)] at hpos
    exact isNaN_div hlength hextent hpos.ne'
  · rfl

/-- The near side of a box is written as the margin is, if it is stretched by a finite factor. -/
lemma fixed_near (hw : w.isFinite = true) (hs : s.isFinite = true) (hlo : lo.isFinite = true) :
    fixed places (w + (lo - lo) * s) = fixed places w := by
  obtain ⟨hnumber, hproduct⟩ := unitsOf_mul (isFinite_sub_self hlo) hs
  rw [unitsOf_sub_self hlo, zero_mul, capped_nearest_zero] at hproduct
  have hfinite := isFinite_of_unitsOf_eq_zero hnumber hproduct
  obtain ⟨hnumber', hsum⟩ := unitsOf_add hw hfinite
  rw [hproduct, add_zero, (denotes_unpack hw).nearest_zero_eq, capped_unitsOf hw] at hsum
  refine fixed_eq_of_unitsOf ?_ hw hsum
  rw [← abs_unitsOf_lt_iff hnumber', hsum]
  exact (abs_unitsOf_lt_iff (isNaN_of_isFinite hw)).mpr hw

lemma fixed_eq_of_far (hlo : lo.isFinite = true) (hhi : hi.isFinite = true) (hx : x.isFinite = true)
    (hlow : unitsOf lo ≤ unitsOf x) (hhigh : unitsOf x ≤ unitsOf hi)
    (hfar : (w + (hi - lo) * s).isFinite = true)
    (h : fixed places (w + (hi - lo) * s) = fixed places w) :
    fixed places (w + (x - lo) * s) = fixed places w := by
  have hnumber := (unitsOf_sub hx hlo).1
  obtain ⟨hpos, hle⟩ := unitsOf_sub_between hlo hx hhi hlow hhigh
  have hw := (isFinite_add hfar).1
  have hplaced := isFinite_stretch hnumber hpos hle hfar
  rcases unitsOf_stretch hnumber hpos hle hfar with ⟨h₁, h₂⟩ | ⟨h₁, h₂⟩
  · exact fixed_eq_of_between hw hplaced hfar h₁ h₂ h.symm
  · exact (fixed_eq_of_between hfar hplaced hw h₁ h₂ h).trans h

/-- The two sides of a box are written alike only if the factor between them is finite. -/
lemma isFinite_factor {length : Float} (hw : w.isFinite = true) (hlo : lo.isFinite = true)
    (hwidth : (hi - lo).isFinite = true) (hlength : length.isNaN = false)
    (h : fixed places (w + (lo - lo) * stretch (hi - lo) length) =
      fixed places (w + (hi - lo) * stretch (hi - lo) length)) :
    (stretch (hi - lo) length).isFinite = true := by
  have hfactor := isNaN_stretch hwidth hlength
  by_contra hinfinite
  have hpos : 0 < hi - lo := by
    by_contra hflat
    exact hinfinite (by rw [stretch, if_neg hflat]; rfl)
  rw [zero_lt_iff_unitsOf (isNaN_of_isFinite hwidth)] at hpos
  have hnear := isNaN_add_of_isNaN w (isNaN_mul_of_zero (isFinite_sub_self hlo) (unitsOf_sub_self hlo)
    (Bool.eq_false_iff.mpr hinfinite))
  have hfar := isNaN_finite_add hw (isNaN_mul_of_ne_zero hwidth hpos.ne' hfactor)
  rw [fixed_eq_nan_iff.mpr hnear, eq_comm, fixed_eq_nan_iff, hfar] at h
  cases h

end Axis

namespace Surface

variable {s : Surface Float} {d : Drawing Float}

/-- All columns of a drawing are written alike just if the far one is written as the margin is. -/
lemma columns_alike_iff (hroom : s.hasRoom = true) (hmargin : s.margin.isFinite = true) (hd : d.Spans)
    (places : ℕ) :
    (∀ p ∈ d.points, ∀ q ∈ d.points,
      fixed places (s.place d.bounds (d.bounds.scale s.innerWidth s.innerHeight) p).1 =
        fixed places (s.place d.bounds (d.bounds.scale s.innerWidth s.innerHeight) q).1) ↔
      fixed places (s.farCorner d.bounds).1 = fixed places s.margin := by
  have hinner : s.innerWidth.isNaN = false := by
    rw [hasRoom, Bool.and_eq_true, decide_eq_true_eq] at hroom
    exact (Binary64.strict _ _ hroom.1).2
  constructor
  · intro h
    obtain ⟨low, hlow, hmin⟩ := hd.tight.minX
    obtain ⟨high, hhigh, hmax⟩ := hd.tight.maxX
    have hsides := h low hlow high hhigh
    simp only [place, hmin, hmax] at hsides
    have hfactor := isFinite_factor hmargin hd.minX hd.width hinner hsides
    exact hsides.symm.trans (fixed_near hmargin hfactor hd.minX)
  · intro h
    have hnumeral : Decimal.IsNumeral (fixed places s.margin) := isNumeral_fixed_iff.mpr hmargin
    have hfar : (s.farCorner d.bounds).1.isFinite = true := isNumeral_fixed_iff.mp (h ▸ hnumeral)
    have hcolumn : ∀ p ∈ d.points,
        fixed places (s.place d.bounds (d.bounds.scale s.innerWidth s.innerHeight) p).1 =
          fixed places s.margin := by
      intro p hp
      have hfinite := hd.points p hp
      obtain ⟨hlow, hhigh⟩ := unitsOf_le_of_contains (hd.contains p hp) hd.minX hd.maxX hfinite
      exact fixed_eq_of_far hd.minX hd.maxX hfinite hlow hhigh hfar h
    exact fun p hp q hq => (hcolumn p hp).trans (hcolumn q hq).symm

/-- A drawing that goes up and down only is fitted into every surface with room, and its columns are
written alike just if the far one is written as the margin is. The rule for boxes without a width does not
come to its help, for its box has one as soon as there is a step. -/
theorem fit_upright {w : Word} (hw : w.Upright) :
    (∃ d, quarterTrace w.commands = .ok d ∧ ∀ p ∈ d.points, p.1 = 0) ∧
    ∃ d, trace w.commands 90 = .ok d ∧ (0 < d.bounds.width ↔ .char 'f' ∈ w) ∧
      ∀ s : Surface Float, s.margin.isFinite = true → s.hasRoom = true →
        ∃ placed, s.fit d.paths d.bounds = some placed ∧ ∀ places,
          ((∀ p ∈ placed.flatten, ∀ q ∈ placed.flatten, fixed places p.1 = fixed places q.1) ↔
            fixed places (s.farCorner d.bounds).1 = fixed places s.margin) := by
  refine ⟨hw.exists_quarterTrace, ?_⟩
  obtain ⟨d, htrace, hdrawn, hwidth⟩ := exists_trace_rightAngle hw.unbranched.commands_ne_restore
  have hforward : .forward ∈ w.commands ↔ .char 'f' ∈ w := by
    rw [← List.count_pos_iff, Word.count_commands Command.ofSymbol_eq_forward_iff, List.count_pos_iff]
  refine ⟨d, htrace, hwidth.trans hforward, fun s hmargin hroom => ?_⟩
  refine ⟨_, fit_eq_some_iff.mpr ⟨hroom, rfl⟩, fun places => ?_⟩
  rw [← List.map_flatten]
  simp only [List.forall_mem_map]
  rcases hdrawn with ⟨-, rfl⟩ | hspans
  · refine iff_of_true (fun p hp => absurd hp List.not_mem_nil) ?_
    have hflat : stretch ((0 : Float) - 0) s.innerWidth = 1 := if_neg (by decide +kernel)
    change fixed places (s.margin + (0 - 0) * stretch (0 - 0) s.innerWidth) = _
    rw [hflat]
    exact fixed_near hmargin rfl rfl
  · exact columns_alike_iff hroom hmargin hspans places

theorem fit_upright_leftForward :
    Word.Upright ['+', 'f'] ∧ ∃ d placed, trace (Word.commands ['+', 'f']) 90 = .ok d ∧
      0 < d.bounds.width ∧
      (⟨100, 100, 0, false⟩ : Surface Float).fit d.paths d.bounds = some placed ∧
      ¬ ∀ p ∈ placed.flatten, ∀ q ∈ placed.flatten, fixed 3 p.1 = fixed 3 q.1 := by
  have hupright : Word.Upright ['+', 'f'] := by decide
  have hfar : ((trace (Word.commands ['+', 'f']) 90).toOption.map fun d =>
      fixed 3 ((⟨100, 100, 0, false⟩ : Surface Float).farCorner d.bounds).1) = some "100".toList := by
    decide +kernel
  have hmargin : fixed 3 0 = "0".toList := by decide +kernel
  obtain ⟨-, d, htrace, hwidth, hfit⟩ := fit_upright hupright
  obtain ⟨placed, hplaced, halike⟩ := hfit ⟨100, 100, 0, false⟩ rfl (by decide +kernel)
  refine ⟨hupright, d, placed, htrace, hwidth.mpr (by decide), hplaced, ?_⟩
  rw [htrace] at hfar
  have htext : fixed 3 ((⟨100, 100, 0, false⟩ : Surface Float).farCorner d.bounds).1 = "100".toList :=
    Option.some.inj hfar
  rw [halike 3, htext]
  change ¬ _ = fixed 3 0
  rw [hmargin]
  decide

/-- One step up is drawn from the lower left corner to the upper right one. -/
theorem fit_leftForward_columns :
    Word.Upright ['+', 'f'] ∧ ∃ d placed, trace (Word.commands ['+', 'f']) 90 = .ok d ∧
      (⟨100, 100, 0, false⟩ : Surface Float).fit d.paths d.bounds = some placed ∧
      placed.map (·.map fun p => fixed 3 p.1) = [["0".toList, "0".toList, "100".toList]] := by
  have hcolumns : ((trace (Word.commands ['+', 'f']) 90).toOption.bind fun d =>
      ((⟨100, 100, 0, false⟩ : Surface Float).fit d.paths d.bounds).map
        (·.map (·.map fun p => fixed 3 p.1))) =
      some [["0".toList, "0".toList, "100".toList]] := by
    decide +kernel
  obtain ⟨d, hd, hfit⟩ := Option.bind_eq_some_iff.mp hcolumns
  obtain ⟨placed, hplaced, htexts⟩ := Option.map_eq_some_iff.mp hfit
  exact ⟨by decide, d, placed, Except.toOption_eq_some_iff.mp hd, hplaced, htexts⟩

end Surface

end Lindenmayer
