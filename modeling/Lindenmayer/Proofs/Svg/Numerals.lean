import Lindenmayer.Proofs.Binary64.Decoded
import Lindenmayer.Proofs.Svg.Placement
import Lindenmayer.Proofs.Svg.Points

/-! The numbers of a document. A document is a layout with a word for each of its numbers, and all words
are numerals just if all numbers are finite. -/

namespace Lindenmayer

namespace Decimal

def IsNumeral (w : List Char) : Prop := (numeralValue? w).isSome = true

instance (w : List Char) : Decidable (IsNumeral w) := inferInstanceAs (Decidable (_ = true))

lemma isNumeral_fixed_iff {places : ℕ} {x : Float} :
    IsNumeral (fixed places x) ↔ x.isFinite = true := by
  have hsays := numeralValue?_fixed places x
  rw [Binary64.isFinite_iff, IsNumeral]
  generalize Binary64.rational? x = q, numeralValue? (fixed places x) = r at *
  cases hsays <;> simp

def notNumerals : List (List Char) := ["nan".toList, "inf".toList, "-inf".toList]

lemma isNumeral_or_mem_notNumerals (places : ℕ) (x : Float) :
    IsNumeral (fixed places x) ∨ fixed places x ∈ notNumerals := by
  by_cases hx : x.isFinite = true
  · exact .inl (isNumeral_fixed_iff.mpr hx)
  · right
    rw [Binary64.isFinite_iff] at hx
    unfold fixed
    unfold Binary64.rational? at hx
    cases hvalue : Binary64.value x with
    | nan => exact List.mem_cons_self
    | infinite negative => cases negative <;> simp [notNumerals, infinite, sign]
    | finite negative mantissa exponent =>
      rw [hvalue] at hx
      exact absurd ⟨_, rfl⟩ hx

end Decimal

namespace Svg

/-- A word for each number of a document. -/
structure Numerals where
  width : List Char
  height : List Char
  strokeWidth : List Char
  points : List (List (List Char × List Char))

namespace Numerals

def words (n : Numerals) : List (List Char) :=
  n.width :: n.height :: n.strokeWidth :: n.points.flatten.flatMap fun p => [p.1, p.2]

def ofCanvas (canvas : Canvas) (places : ℕ) (placed : List (Path Float)) : Numerals where
  width := Decimal.fixed places canvas.surface.width
  height := Decimal.fixed places canvas.surface.height
  strokeWidth := Decimal.fixed places canvas.style.strokeWidth
  points := placed.map (·.map fun p => (Decimal.fixed places p.1, Decimal.fixed places p.2))

end Numerals

def polylineOf (style : Style) (strokeWidth : List Char) (path : List (List Char × List Char)) : Line :=
  spaced ["  <polyline".toList, attr "points" (spaced (path.map fun p => p.1 ++ ',' :: p.2)),
    spaced [attr "stroke" style.stroke.toList, attr "stroke-width" strokeWidth,
      attr "fill" style.fill.toList, attr "stroke-linecap" style.linecap.toList,
      attr "stroke-linejoin" style.linejoin.toList],
    "/>".toList]

/-- A document with these words where its numbers stand. -/
def layout (canvas : Canvas) (title : Option String) (n : Numerals) : List Line :=
  declarationLine :: openLine n.width n.height :: titleLine title ++
    backgroundLine n.width n.height canvas.background ++
    n.points.map (polylineOf canvas.style n.strokeWidth) ++ [closeLine]

lemma polylineOf_fixed (style : Style) (places : ℕ) (path : Path Float) :
    polylineOf style (Decimal.fixed places style.strokeWidth)
        (path.map fun p => (Decimal.fixed places p.1, Decimal.fixed places p.2)) =
      polylineLine places (style.attributes places) path := by
  rw [polylineOf, List.map_map]
  rfl

lemma layout_ofCanvas (canvas : Canvas) (places : ℕ) (title : Option String)
    (placed : List (Path Float)) :
    layout canvas title (.ofCanvas canvas places placed) = lines canvas places title placed := by
  have hpolylines : (placed.map fun path => path.map fun p => (Decimal.fixed places p.1,
      Decimal.fixed places p.2)).map
        (polylineOf canvas.style (Decimal.fixed places canvas.style.strokeWidth)) =
      placed.map (polylineLine places (canvas.style.attributes places)) := by
    rw [List.map_map]
    exact List.map_congr_left fun path _ => polylineOf_fixed canvas.style places path
  rw [layout, Numerals.ofCanvas, hpolylines]
  rfl

namespace Numerals

lemma words_ofCanvas (canvas : Canvas) (places : ℕ) (placed : List (Path Float)) :
    (ofCanvas canvas places placed).words =
      (canvas.surface.width :: canvas.surface.height :: canvas.style.strokeWidth ::
        placed.flatten.flatMap fun p => [p.1, p.2]).map (Decimal.fixed places) := by
  rw [words, ofCanvas, ← List.map_flatten, List.flatMap_map, List.map_cons, List.map_cons,
    List.map_cons, List.map_flatMap]
  rfl

lemma isNumeral_or_of_mem_words {canvas : Canvas} {places : ℕ} {placed : List (Path Float)}
    {w : List Char} (hw : w ∈ (ofCanvas canvas places placed).words) :
    Decimal.IsNumeral w ∨ w ∈ Decimal.notNumerals := by
  rw [words_ofCanvas] at hw
  obtain ⟨x, -, rfl⟩ := List.mem_map.mp hw
  exact Decimal.isNumeral_or_mem_notNumerals places x

lemma forall_isNumeral_ofCanvas_iff (canvas : Canvas) (places : ℕ) (placed : List (Path Float)) :
    (∀ w ∈ (ofCanvas canvas places placed).words, Decimal.IsNumeral w) ↔
      canvas.surface.width.isFinite = true ∧ canvas.surface.height.isFinite = true ∧
        canvas.style.strokeWidth.isFinite = true ∧ ∀ p ∈ placed.flatten, p.IsFinite := by
  rw [words_ofCanvas, List.forall_mem_map]
  simp only [Decimal.isNumeral_fixed_iff, List.forall_mem_cons, List.forall_mem_flatMap,
    List.not_mem_nil, false_implies, implies_true, and_true]
  rfl

end Numerals

/-- All words of a document are numerals just if the canvas has finite measures, the turtle came to
numbers only, and the far corner of its box is placed at one. -/
lemma forall_isNumeral_iff {canvas : Canvas} {places : ℕ} {cs : List Command} {angle : Float}
    {d : Drawing Float} {placed : List (Path Float)} (htrace : trace cs angle = .ok d)
    (hpaths : d.paths ≠ []) (hfit : canvas.surface.fit d.paths d.bounds = some placed) :
    (∀ w ∈ (Numerals.ofCanvas canvas places placed).words, Decimal.IsNumeral w) ↔
      canvas.surface.width.isFinite = true ∧ canvas.surface.height.isFinite = true ∧
        canvas.style.strokeWidth.isFinite = true ∧ (∀ p ∈ d.points, p.IsNumber) ∧
        (canvas.surface.farCorner d.bounds).IsFinite := by
  obtain ⟨s, hrun, rfl⟩ := draw_eq_ok_iff.mp htrace
  have hcs : cs ≠ [] := by
    rintro rfl
    cases hrun
    exact hpaths rfl
  obtain ⟨-, rfl⟩ := Surface.fit_eq_some_iff.mp hfit
  have htight : s.drawing.bounds.Tight s.drawing.points := hrun.tight_points hcs
  rw [Numerals.forall_isNumeral_ofCanvas_iff, ← List.map_flatten, List.forall_mem_map,
    ← Surface.isFinite_place_iff htight (hrun.contains_of_numbers Binary64.totalOn rfl hcs)]
  rfl

end Svg

end Lindenmayer
