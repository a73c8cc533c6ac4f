import Lindenmayer.Proofs.Decimal.Numeral
import Lindenmayer.Proofs.Except
import Lindenmayer.Proofs.Svg.Document

/-! The points of a document. Each polyline is read back as its path: an item for each point, a word
for each coordinate, and in the word the coordinate rounded to the precision of the canvas. -/

namespace Lindenmayer

lemma Decimal.placesOf_eq_ok {precision : ℤ} {places : ℕ} (h : placesOf precision = .ok places) :
    precision = places := by
  unfold placesOf at h
  split at h
  · cases h
  · split at h
    · cases h
    · split at h
      · cases h
      · rw [Except.ok.inj h]
        rfl

namespace Svg

/-- What a polyline says between the quotes of its points. -/
def pointsOf? (l : Line) : Option (List Char) :=
  (l.dropPrefix? "  <polyline points=\"".toList).map (·.takeWhile (· != '"'))

def items (s : List Char) : List (List Char) := if s.isEmpty then [] else s.splitOn ' '

/-- The word says the double with so many places, and says nothing if the double is no number. -/
def Says (places : ℕ) (word : List Char) (x : Float) : Prop :=
  Option.Rel (Decimal.IsRounded places) (Binary64.rational? x) (Decimal.numeralValue? word)

def SaysPoint (places : ℕ) (item : List Char) (p : Point Float) : Prop :=
  ∃ first second, item.splitOn ',' = [first, second] ∧ Says places first p.1 ∧ Says places second p.2

def SaysPath (places : ℕ) (l : Line) (path : Path Float) : Prop :=
  ∃ points, pointsOf? l = some points ∧ List.Forall₂ (SaysPoint places) (items points) path

section Separators

variable {c : Char}

lemma notMem_fixed (hdigit : c.isDigit = false) (hc : c ∉ ['-', '.', 'a', 'f', 'i', 'n'])
    (places : ℕ) (x : Float) : c ∉ Decimal.fixed places x := by
  intro h
  rcases Decimal.mem_fixed h with h | h
  · rw [hdigit] at h
    cases h
  · exact hc h

lemma notMem_pointText (hdigit : c.isDigit = false) (hc : c ∉ [',', '-', '.', 'a', 'f', 'i', 'n'])
    (places : ℕ) (p : Point Float) : c ∉ pointText places p := by
  obtain ⟨hcomma, hc⟩ := not_or.mp (mt List.mem_cons.mpr hc)
  intro h
  rcases List.mem_append.mp h with h | h
  · exact notMem_fixed hdigit hc places p.1 h
  · rcases List.mem_cons.mp h with h | h
    · exact hcomma h
    · exact notMem_fixed hdigit hc places p.2 h

lemma notMem_pointsText (hdigit : c.isDigit = false)
    (hc : c ∉ [' ', ',', '-', '.', 'a', 'f', 'i', 'n']) (places : ℕ) (path : Path Float) :
    c ∉ pointsText places path := by
  obtain ⟨hspace, hc⟩ := not_or.mp (mt List.mem_cons.mpr hc)
  intro h
  rcases Text.mem_intercalate h with h | ⟨w, hw, h⟩
  · exact hspace (List.mem_singleton.mp h)
  · obtain ⟨p, -, rfl⟩ := List.mem_map.mp hw
    exact notMem_pointText hdigit hc places p h

end Separators

lemma pointText_ne_nil (places : ℕ) (p : Point Float) : pointText places p ≠ [] :=
  List.append_ne_nil_of_right_ne_nil _ (List.cons_ne_nil _ _)

lemma spaced_cons_ne_nil {w : List Char} (hw : w ≠ []) (ws : List (List Char)) :
    spaced (w :: ws) ≠ [] := by
  cases ws with
  | nil => rwa [spaced, List.intercalate_singleton]
  | cons w' ws =>
    rw [spaced, List.intercalate_cons_cons, List.append_assoc]
    exact List.append_ne_nil_of_left_ne_nil hw _

lemma items_pointsText (places : ℕ) (path : Path Float) :
    items (pointsText places path) = path.map (pointText places) := by
  cases path with
  | nil => rfl
  | cons p path =>
    have hspaces : ∀ w ∈ (p :: path).map (pointText places), ' ' ∉ w := by
      intro w hw
      obtain ⟨p', -, rfl⟩ := List.mem_map.mp hw
      exact notMem_pointText rfl (by decide) places p'
    have hne : pointsText places (p :: path) ≠ [] :=
      spaced_cons_ne_nil (pointText_ne_nil places p) _
    rw [items, if_neg (mt List.isEmpty_iff.mp hne)]
    exact List.splitOn_intercalate ' ' hspaces (List.cons_ne_nil _ _)

lemma saysPoint_pointText (places : ℕ) (p : Point Float) :
    SaysPoint places (pointText places p) p := by
  refine ⟨Decimal.fixed places p.1, Decimal.fixed places p.2, ?_,
    Decimal.numeralValue?_fixed places p.1, Decimal.numeralValue?_fixed places p.2⟩
  have hcommas : ∀ w ∈ [Decimal.fixed places p.1, Decimal.fixed places p.2], ',' ∉ w := by
    simp only [List.forall_mem_cons]
    exact ⟨notMem_fixed rfl (by decide) places p.1, notMem_fixed rfl (by decide) places p.2,
      fun _ hw => absurd hw List.not_mem_nil⟩
  have hjoin : pointText places p =
      [','].intercalate [Decimal.fixed places p.1, Decimal.fixed places p.2] := by
    rw [List.intercalate_cons_cons, List.intercalate_singleton, List.append_assoc]
    rfl
  rw [hjoin]
  exact List.splitOn_intercalate ',' hcommas (List.cons_ne_nil _ _)

lemma pointsOf?_polylineLine (places : ℕ) (style : List Char) (path : Path Float) :
    pointsOf? (polylineLine places style path) = some (pointsText places path) := by
  have hquote : ∀ c ∈ pointsText places path, (c != '"') = true := by
    intro c hc
    rw [bne_iff_ne]
    rintro rfl
    exact notMem_pointsText rfl (by decide) places path hc
  have hline : polylineLine places style path = "  <polyline points=\"".toList ++
      (pointsText places path ++ '"' :: ' ' :: (style ++ ' ' :: "/>".toList)) := by
    simp [polylineLine, spaced, attr]
  rw [hline, pointsOf?, List.dropPrefix?_append_of_beq _ (beq_self_eq_true _), Option.map_some,
    List.takeWhile_append_of_pos hquote]
  simp

lemma saysPath_polylineLine (places : ℕ) (style : List Char) (path : Path Float) :
    SaysPath places (polylineLine places style path) path := by
  refine ⟨pointsText places path, pointsOf?_polylineLine places style path, ?_⟩
  rw [items_pointsText, List.forall₂_map_left_iff]
  exact List.forall₂_same.mpr fun p _ => saysPoint_pointText places p

/-- The polylines among the lines are those of the paths, in their order. -/
lemma filter_isPolyline_lines (canvas : Canvas) (places : ℕ) (title : Option String)
    (paths : List (Path Float)) :
    (lines canvas places title paths).filter isPolyline =
      paths.map (polylineLine places (canvas.style.attributes places)) := by
  have htitle : (titleLine title).filter isPolyline = [] := by
    rw [List.filter_eq_nil_iff]
    exact List.countP_eq_zero.mp (countP_isPolyline_titleLine title)
  have hbackground : ∀ width height : List Char,
      (backgroundLine width height canvas.background).filter isPolyline = [] := by
    intro width height
    rw [List.filter_eq_nil_iff]
    exact List.countP_eq_zero.mp (countP_isPolyline_backgroundLine width height canvas.background)
  have hpaths : ∀ l ∈ paths.map (polylineLine places (canvas.style.attributes places)),
      isPolyline l = true := by
    intro l hl
    obtain ⟨path, -, rfl⟩ := List.mem_map.mp hl
    exact isPolyline_polylineLine places _ path
  have hdeclaration : isPolyline declarationLine = false := rfl
  have hclose : isPolyline closeLine = false := rfl
  simp [lines, htitle, hbackground, List.filter_eq_self.mpr hpaths, hdeclaration, hclose,
    isPolyline_openLine]

/-- The polylines of a document say its placed paths, one each and in order, point by point. -/
theorem document_saysPaths {canvas : Canvas} {title : Option String} {paths : List (Path Float)}
    {bounds : Bounds Float} {text : List Char} (h : document canvas title paths bounds = .ok text) :
    ∃ (places : ℕ) (placed : List (Path Float)),
      canvas.precision = places ∧ canvas.surface.fit paths bounds = some placed ∧
      placed.map List.length = paths.map List.length ∧
      text = textOfLines (lines canvas places title placed) ∧
      (InlineTexts canvas →
        (Text.lines text).filter isPolyline =
            (lines canvas places title placed).filter isPolyline ∧
          ((∀ s ∈ title, Text.Inline s.toList) →
            Text.lines text = lines canvas places title placed)) ∧
      List.Forall₂ (SaysPath places) ((lines canvas places title placed).filter isPolyline)
        placed := by
  obtain ⟨-, placed, places, hfit, hplaces, rfl⟩ := document_eq_ok_iff.mp h
  refine ⟨places, placed, Decimal.placesOf_eq_ok hplaces, hfit, ?_, rfl, fun hinline => ?_, ?_⟩
  · obtain ⟨-, rfl⟩ := Surface.fit_eq_some_iff.mp hfit
    rw [List.map_map]
    exact List.map_congr_left fun path _ => List.length_map _
  · exact ⟨hinline.filter_isPolyline places title placed,
      fun htitle => Text.lines_flatMap_lineFeed rfl (hinline.lines htitle places placed)⟩
  · rw [filter_isPolyline_lines, List.forall₂_map_left_iff]
    exact List.forall₂_same.mpr fun path _ => saysPath_polylineLine places _ path

theorem document_saysPaths_branch :
    let canvas : Canvas := ⟨⟨100, 50, 10, true⟩, 2, {}, some "#fff"⟩
    let title := some "a\n  <polyline b"
    ∃ text placed, document canvas title [[(0, 0), (1, 2)], [(1, 2), (3, 0), (0, 1)]]
        ⟨0, 3, 0, 2⟩ = .ok text ∧
      placed.map List.length = [2, 3] ∧
      (Text.lines text).filter isPolyline = (lines canvas 2 title placed).filter isPolyline ∧
      List.Forall₂ (SaysPath 2) ((lines canvas 2 title placed).filter isPolyline) placed := by
  intro canvas title
  have hwritten : (document canvas title [[(0, 0), (1, 2)], [(1, 2), (3, 0), (0, 1)]]
      ⟨0, 3, 0, 2⟩).toOption.isSome = true := by
    decide +kernel
  obtain ⟨text, htext⟩ := Option.isSome_iff_exists.mp hwritten
  have hdocument := Except.toOption_eq_some_iff.mp htext
  obtain ⟨places, placed, hplaces, -, hlengths, -, hlines, hsays⟩ := document_saysPaths hdocument
  obtain rfl : 2 = places := Int.ofNat.inj hplaces
  have hinline : InlineTexts canvas := by
    have hstroke : Text.Inline "#000".toList := inline_literal rfl
    have hfill : Text.Inline "none".toList := inline_literal rfl
    have hround : Text.Inline "round".toList := inline_literal rfl
    refine ⟨?_, hstroke, hfill, hround, hround⟩
    rintro s ⟨⟩
    exact inline_literal rfl
  exact ⟨text, placed, hdocument, hlengths, (hlines hinline).1, hsays⟩

end Svg

end Lindenmayer
