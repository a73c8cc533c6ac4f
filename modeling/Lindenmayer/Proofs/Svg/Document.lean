import Lindenmayer.Proofs.Decimal.Fixed
import Lindenmayer.Proofs.Svg.Escaping
import Lindenmayer.Proofs.Text.Lines
import Mathlib.Data.List.Chain

/-! The lines of a document. It is written whole, from its declaration to the end of its root, with one
polyline for each path. If no text of its canvas has a break in it, its polylines are read back from it,
and all of its lines if there is none in its title either. -/

namespace Lindenmayer

namespace Surface

variable {α : Type} [OfNat α 0] [OfNat α 1] [OfNat α 2] [Add α] [Sub α] [Mul α] [Div α] [LT α]
  [DecidableLT α]

lemma fit_eq_some_iff {s : Surface α} {paths placed : List (Path α)} {b : Bounds α} :
    s.fit paths b = some placed ↔
      s.hasRoom = true ∧ placed = paths.map fun path =>
        path.map (s.place b (b.scale s.innerWidth s.innerHeight)) := by
  unfold fit
  cases s.hasRoom <;> simp [eq_comm]

lemma fit_eq_none_iff {s : Surface α} {paths : List (Path α)} {b : Bounds α} :
    s.fit paths b = none ↔ s.hasRoom = false := by
  unfold fit
  cases s.hasRoom <;> simp

end Surface

namespace Svg

open Text (Inline)

/-- What varies in a document: the size of its surface, the styling of its lines, and what it shows. -/
structure Outline where
  width : List Char
  height : List Char
  style : List Char
  title : Option (List Char)
  background : Option (List Char)
  points : List (List Char)

namespace Outline

variable (o : Outline)

def rootLine : Line :=
  "<svg xmlns=\"http://www.w3.org/2000/svg\" version=\"1.1\" viewBox=\"0 0 ".toList ++ o.width ++
    " ".toList ++ o.height ++ "\" width=\"".toList ++ o.width ++ "\" height=\"".toList ++ o.height ++
    "\">".toList

def titleLine (title : List Char) : Line := "  <title>".toList ++ title ++ "</title>".toList

def rectLine (background : List Char) : Line :=
  "  <rect x=\"0\" y=\"0\" width=\"".toList ++ o.width ++ "\" height=\"".toList ++ o.height ++
    "\" fill=\"".toList ++ background ++ "\" />".toList

def polylineLine (points : List Char) : Line :=
  "  <polyline points=\"".toList ++ points ++ "\" ".toList ++ o.style ++ " />".toList

def lines : List Line :=
  "<?xml version=\"1.0\" encoding=\"UTF-8\"?>".toList :: o.rootLine ::
    o.title.toList.map titleLine ++ o.background.toList.map o.rectLine ++
    o.points.map o.polylineLine ++ ["</svg>".toList]

end Outline

/-- A text that is one whole document with something drawn in it. -/
def IsDocument (text : List Char) : Prop :=
  ∃ o : Outline, o.points ≠ [] ∧ text = o.lines.flatMap (· ++ "\n".toList)

lemma document_eq_ok_iff {canvas : Canvas} {title : Option String} {paths : List (Path Float)}
    {bounds : Bounds Float} {text : List Char} :
    document canvas title paths bounds = .ok text ↔
      paths ≠ [] ∧ ∃ placed places, canvas.surface.fit paths bounds = some placed ∧
        Decimal.placesOf canvas.precision = .ok places ∧
        text = textOfLines (lines canvas places title placed) := by
  unfold document
  by_cases hpaths : paths = []
  · simp [hpaths]
  · cases hfit : canvas.surface.fit paths bounds with
    | none => simp [hpaths]
    | some placed =>
      cases hplaces : Decimal.placesOf canvas.precision with
      | error e => simp [hpaths]
      | ok places =>
        simp only [List.isEmpty_iff, hpaths, if_false, Except.ok.injEq]
        constructor
        · rintro rfl
          exact ⟨hpaths, placed, places, rfl, rfl, rfl⟩
        · rintro ⟨-, placed', places', hplaced, rfl, rfl⟩
          exact Option.some.inj hplaced ▸ rfl

def outline (canvas : Canvas) (places : ℕ) (title : Option String) (paths : List (Path Float)) :
    Outline where
  width := Decimal.fixed places canvas.surface.width
  height := Decimal.fixed places canvas.surface.height
  style := canvas.style.attributes places
  title := (title.filter (!·.isEmpty)).map fun s => escapeTitle s.toList
  background := (canvas.background.filter isPainted).map String.toList
  points := paths.map (pointsText places)

lemma openLine_eq_rootLine (o : Outline) : openLine o.width o.height = o.rootLine := by
  unfold openLine spaced attr Outline.rootLine
  simp

lemma polylineLine_eq_outline (o : Outline) (places : ℕ) (path : Path Float) :
    polylineLine places o.style path = o.polylineLine (pointsText places path) := by
  unfold polylineLine spaced attr Outline.polylineLine
  simp

lemma titleLine_eq_outline (title : Option String) :
    titleLine title = ((title.filter (!·.isEmpty)).map fun s => escapeTitle s.toList).toList.map
      Outline.titleLine := by
  cases title with
  | none => rfl
  | some s =>
    cases hs : s.isEmpty
    · rw [titleLine, hs, Option.filter_some, hs]
      rfl
    · rw [titleLine, hs, Option.filter_some, hs]
      rfl

lemma backgroundLine_eq_outline (o : Outline) (background : Option String) :
    backgroundLine o.width o.height background =
      ((background.filter isPainted).map String.toList).toList.map o.rectLine := by
  cases background with
  | none => rfl
  | some s =>
    cases hs : isPainted s
    · rw [backgroundLine, hs, Option.filter_some, hs]
      rfl
    · rw [backgroundLine, hs, Option.filter_some, hs]
      refine congrArg (· :: []) ?_
      unfold spaced attr Outline.rectLine
      simp

lemma lines_eq_outline (canvas : Canvas) (places : ℕ) (title : Option String)
    (paths : List (Path Float)) :
    lines canvas places title paths = (outline canvas places title paths).lines := by
  have hroot := openLine_eq_rootLine (outline canvas places title paths)
  have hbackground :=
    backgroundLine_eq_outline (outline canvas places title paths) canvas.background
  have hpolylines : paths.map (polylineLine places (canvas.style.attributes places)) =
      (paths.map (pointsText places)).map (outline canvas places title paths).polylineLine := by
    rw [List.map_map]
    exact List.map_congr_left fun path _ =>
      polylineLine_eq_outline (outline canvas places title paths) places path
  calc lines canvas places title paths
      = declarationLine :: (outline canvas places title paths).rootLine :: titleLine title ++
          backgroundLine (outline canvas places title paths).width
            (outline canvas places title paths).height canvas.background ++
          paths.map (polylineLine places (canvas.style.attributes places)) ++ [closeLine] := by
        rw [← hroot]
        rfl
    _ = (outline canvas places title paths).lines := by
        rw [titleLine_eq_outline, hbackground, hpolylines]
        rfl

lemma isDocument_of_document {canvas : Canvas} {title : Option String} {paths : List (Path Float)}
    {bounds : Bounds Float} {text : List Char} (h : document canvas title paths bounds = .ok text) :
    IsDocument text := by
  obtain ⟨hpaths, placed, places, hfit, -, rfl⟩ := document_eq_ok_iff.mp h
  obtain ⟨-, rfl⟩ := Surface.fit_eq_some_iff.mp hfit
  refine ⟨_, ?_, congrArg textOfLines (lines_eq_outline canvas places title _)⟩
  exact fun hnil => hpaths (List.map_eq_nil_iff.mp (List.map_eq_nil_iff.mp hnil))

lemma IsDocument.ends {text : List Char} (h : IsDocument text) : "</svg>\n".toList <:+ text := by
  obtain ⟨o, -, rfl⟩ := h
  rw [Outline.lines, List.flatMap_append]
  exact List.suffix_append _ _

def isPolyline (l : Line) : Bool := "  <polyline ".toList.isPrefixOf l

lemma isPolyline_polylineLine (places : ℕ) (style : List Char) (path : Path Float) :
    isPolyline (polylineLine places style path) = true := rfl

lemma isPolyline_openLine (width height : List Char) : isPolyline (openLine width height) = false :=
  rfl

lemma countP_isPolyline_titleLine (title : Option String) :
    (titleLine title).countP isPolyline = 0 := by
  unfold titleLine
  split
  · rfl
  · split <;> rfl

lemma countP_isPolyline_backgroundLine (width height : List Char) (background : Option String) :
    (backgroundLine width height background).countP isPolyline = 0 := by
  unfold backgroundLine
  split
  · rfl
  · split <;> rfl

lemma countP_isPolyline_lines (canvas : Canvas) (places : ℕ) (title : Option String)
    (paths : List (Path Float)) :
    (lines canvas places title paths).countP isPolyline = paths.length := by
  have hpaths : (paths.map (polylineLine places (canvas.style.attributes places))).countP
      isPolyline = paths.length := by
    rw [List.countP_map]
    exact List.countP_eq_length.mpr fun path _ => isPolyline_polylineLine places _ path
  have hdeclaration : isPolyline declarationLine = false := rfl
  have hclose : isPolyline closeLine = false := rfl
  simp [lines, hpaths, hdeclaration, hclose, isPolyline_openLine, countP_isPolyline_titleLine,
    countP_isPolyline_backgroundLine]

lemma inline_fixed (places : ℕ) (x : Float) : Inline (Decimal.fixed places x) := by
  intro c hc
  rcases Decimal.mem_fixed hc with h | h
  · simp only [Char.isDigit, Bool.and_eq_true, decide_eq_true_eq] at h
    have lo : 48 ≤ c.toNat := h.1
    have hi : c.toNat ≤ 57 := h.2
    simp only [Text.isBreak, code_char, Bool.or_eq_false_iff, Bool.and_eq_false_iff,
      decide_eq_false_iff_not, beq_eq_false_iff_ne]
    omega
  · have hall : ∀ c ∈ ['-', '.', 'a', 'f', 'i', 'n'], Text.isBreak c = false := by
      simp [Text.isBreak]
    exact hall c h

/-- No text of the canvas has a break in it. -/
structure InlineTexts (canvas : Canvas) : Prop where
  background : ∀ s ∈ canvas.background, Inline s.toList
  stroke : Inline canvas.style.stroke.toList
  fill : Inline canvas.style.fill.toList
  linecap : Inline canvas.style.linecap.toList
  linejoin : Inline canvas.style.linejoin.toList

lemma inline_literal {s : List Char} (h : s.all (!Text.isBreak ·) = true) : Inline s :=
  fun c hc => by simpa using List.all_eq_true.mp h c hc

lemma inline_spaced {ws : List (List Char)} (h : ∀ w ∈ ws, Inline w) : Inline (spaced ws) := by
  intro c hc
  rcases Text.mem_intercalate hc with hc | ⟨w, hw, hc⟩
  · exact (inline_literal rfl : Inline [' ']) c hc
  · exact h w hw c hc

lemma inline_attr {name : String} {value : List Char} (hname : Inline name.toList)
    (hvalue : Inline value) : Inline (attr name value) := by
  refine (hname.append (Text.inline_cons.mpr ⟨rfl, Text.inline_cons.mpr ⟨rfl, hvalue⟩⟩)).append ?_
  exact inline_literal rfl

lemma inline_escapeTitle {s : List Char} (h : Inline s) : Inline (escapeTitle s) := by
  intro c hc
  rw [escapeTitle_eq_flatMap] at hc
  obtain ⟨d, hd, hc⟩ := List.mem_flatMap.mp hc
  unfold escapeChar at hc
  split at hc
  · exact (inline_literal rfl : Inline "&amp;".toList) c hc
  · split at hc
    · exact (inline_literal rfl : Inline "&lt;".toList) c hc
    · split at hc
      · exact (inline_literal rfl : Inline "&gt;".toList) c hc
      · exact List.mem_singleton.mp hc ▸ h d hd

lemma inline_pointsText (places : ℕ) (path : Path Float) : Inline (pointsText places path) := by
  refine inline_spaced fun w hw => ?_
  obtain ⟨p, -, rfl⟩ := List.mem_map.mp hw
  exact (inline_fixed places p.1).append (Text.inline_cons.mpr ⟨rfl, inline_fixed places p.2⟩)

lemma inline_titleLine {title : Option String} (h : ∀ s ∈ title, Inline s.toList) :
    ∀ l ∈ titleLine title, Inline l := by
  unfold titleLine
  split
  · exact fun _ hl => absurd hl List.not_mem_nil
  · next s =>
    split
    · exact fun _ hl => absurd hl List.not_mem_nil
    · intro l hl
      obtain rfl := List.mem_singleton.mp hl
      exact ((inline_literal rfl).append (inline_escapeTitle (h s rfl))).append (inline_literal rfl)

namespace InlineTexts

variable {canvas : Canvas}

lemma attributes (h : InlineTexts canvas) (places : ℕ) :
    Inline (canvas.style.attributes places) := by
  refine inline_spaced ?_
  simp only [List.forall_mem_cons]
  exact ⟨inline_attr (inline_literal rfl) h.stroke,
    inline_attr (inline_literal rfl) (inline_fixed _ _),
    inline_attr (inline_literal rfl) h.fill, inline_attr (inline_literal rfl) h.linecap,
    inline_attr (inline_literal rfl) h.linejoin, fun _ hw => absurd hw List.not_mem_nil⟩

lemma backgroundLine (h : InlineTexts canvas) {width height : List Char}
    (hwidth : Inline width) (hheight : Inline height) :
    ∀ l ∈ Svg.backgroundLine width height canvas.background, Inline l := by
  unfold Svg.backgroundLine
  split
  · exact fun _ hl => absurd hl List.not_mem_nil
  · next s hs =>
    split
    · intro l hl
      obtain rfl := List.mem_singleton.mp hl
      refine inline_spaced ?_
      simp only [List.forall_mem_cons]
      exact ⟨inline_literal rfl, inline_attr (inline_literal rfl) (inline_literal rfl),
        inline_attr (inline_literal rfl) (inline_literal rfl),
        inline_attr (inline_literal rfl) hwidth, inline_attr (inline_literal rfl) hheight,
        inline_attr (inline_literal rfl) (h.background s hs), inline_literal rfl,
        fun _ hw => absurd hw List.not_mem_nil⟩
    · exact fun _ hl => absurd hl List.not_mem_nil

lemma inline_or_mem_titleLine (h : InlineTexts canvas) (places : ℕ) (title : Option String)
    (paths : List (Path Float)) :
    ∀ l ∈ Svg.lines canvas places title paths, Inline l ∨ l ∈ titleLine title := by
  have hwidth := inline_fixed places canvas.surface.width
  have hheight := inline_fixed places canvas.surface.height
  have hopen : Inline (openLine (Decimal.fixed places canvas.surface.width)
      (Decimal.fixed places canvas.surface.height)) := by
    refine (inline_spaced ?_).append (inline_literal rfl)
    simp only [List.forall_mem_cons]
    refine ⟨inline_literal rfl, inline_attr (inline_literal rfl) (inline_literal rfl),
      inline_attr (inline_literal rfl) (inline_literal rfl),
      inline_attr (inline_literal rfl) (inline_spaced ?_),
      inline_attr (inline_literal rfl) hwidth, inline_attr (inline_literal rfl) hheight,
      fun _ hw => absurd hw List.not_mem_nil⟩
    simp only [List.forall_mem_cons]
    exact ⟨inline_literal rfl, inline_literal rfl, hwidth, hheight,
      fun _ hw => absurd hw List.not_mem_nil⟩
  have hpolyline : ∀ path ∈ paths,
      Inline (polylineLine places (canvas.style.attributes places) path) := by
    intro path _
    refine inline_spaced ?_
    simp only [List.forall_mem_cons]
    exact ⟨inline_literal rfl, inline_attr (inline_literal rfl) (inline_pointsText places path),
      h.attributes places, inline_literal rfl, fun _ hw => absurd hw List.not_mem_nil⟩
  simp only [Svg.lines, List.forall_mem_append, List.forall_mem_cons, List.forall_mem_map]
  exact ⟨⟨⟨⟨.inl (inline_literal rfl), .inl hopen, fun _ => .inr⟩,
      fun l hl => .inl (h.backgroundLine hwidth hheight l hl)⟩, fun p hp => .inl (hpolyline p hp)⟩,
    .inl (inline_literal rfl), fun _ hl => absurd hl List.not_mem_nil⟩

lemma lines (h : InlineTexts canvas) {title : Option String} (htitle : ∀ s ∈ title, Inline s.toList)
    (places : ℕ) (paths : List (Path Float)) :
    ∀ l ∈ Svg.lines canvas places title paths, Inline l :=
  fun l hl => (h.inline_or_mem_titleLine places title paths l hl).elim id (inline_titleLine htitle l)

end InlineTexts

/-- No tag in the text begins like a polyline. -/
def NoPolyline (s : List Char) : Prop := s.IsChain fun c d => c = '<' → d ≠ 'p'

lemma noPolyline_of_notMem {s : List Char} (h : '<' ∉ s) : NoPolyline s := by
  refine List.isChain_iff_forall_rel_of_append_cons_cons.mpr ?_
  rintro c d front rest rfl rfl
  exact absurd (by simp) h

lemma NoPolyline.not_isPolyline {s l : List Char} (h : NoPolyline s) (hl : l <:+: s) :
    isPolyline l = false := by
  refine Bool.eq_false_iff.mpr fun hpolyline => ?_
  obtain ⟨rest, rfl⟩ := List.isPrefixOf_iff_prefix.mp hpolyline
  obtain ⟨front, back, rfl⟩ := hl
  have hpair : front ++ ("  <polyline ".toList ++ rest) ++ back =
      (front ++ [' ', ' ']) ++ '<' :: 'p' :: ("olyline ".toList ++ rest ++ back) := by
    simp
  exact List.isChain_iff_forall_rel_of_append_cons_cons.mp h hpair rfl rfl

/-- What a title line has of tags is its own, for there is none in an escaped title. -/
lemma noPolyline_titleLine {title : Option String} {l : Line} (hl : l ∈ titleLine title) :
    NoPolyline (l ++ ['\n']) := by
  unfold titleLine at hl
  split at hl
  · exact absurd hl List.not_mem_nil
  · next s =>
    split at hl
    · exact absurd hl List.not_mem_nil
    · obtain rfl := List.mem_singleton.mp hl
      have hfront : NoPolyline "  <title>".toList := by unfold NoPolyline; decide
      have hback : NoPolyline ("</title>".toList ++ ['\n']) := by unfold NoPolyline; decide
      have hmiddle : NoPolyline (escapeTitle s.toList) :=
        noPolyline_of_notMem (notMem_escapeTitle (.inl rfl) _)
      rw [List.append_assoc, List.append_assoc]
      refine List.isChain_append.mpr ⟨hfront, List.isChain_append.mpr ⟨hmiddle, hback, ?_⟩, ?_⟩
      · rintro c - d hd - rfl
        cases hd
      · rintro c hc - - rfl
        cases hc

lemma filter_isPolyline_lines_textOfLines {ls : List Line}
    (h : ∀ l ∈ ls, Inline l ∨ NoPolyline (l ++ ['\n'])) :
    (Text.lines (textOfLines ls)).filter isPolyline = ls.filter isPolyline := by
  induction ls with
  | nil => rfl
  | cons l ls ih =>
    obtain ⟨hl, hls⟩ := List.forall_mem_cons.mp h
    have htext : textOfLines (l :: ls) = l ++ '\n' :: textOfLines ls := by
      rw [textOfLines, List.flatMap_cons, List.append_assoc]
      rfl
    rw [htext]
    rcases hl with hl | hl
    · rw [Text.lines_append_lineFeed rfl hl, List.filter_cons, List.filter_cons, ih hls]
    · have hnone : (Text.lines (l ++ ['\n'])).filter isPolyline = [] := by
        rw [List.filter_eq_nil_iff]
        exact fun p hp => Bool.eq_false_iff.mp (hl.not_isPolyline (Text.infix_of_mem_lines hp))
      have hself := hl.not_isPolyline (List.prefix_append l ['\n']).isInfix
      rw [Text.lines_append_cons rfl, List.filter_append, hnone, ih hls, List.nil_append,
        List.filter_cons_of_neg (Bool.eq_false_iff.mp hself)]

/-- A title makes no polyline, whatever breaks are in it. -/
lemma InlineTexts.filter_isPolyline {canvas : Canvas} (h : InlineTexts canvas) (places : ℕ)
    (title : Option String) (paths : List (Path Float)) :
    (Text.lines (textOfLines (Svg.lines canvas places title paths))).filter isPolyline =
      (Svg.lines canvas places title paths).filter isPolyline :=
  filter_isPolyline_lines_textOfLines fun l hl =>
    (h.inline_or_mem_titleLine places title paths l hl).imp_right noPolyline_titleLine

end Svg

end Lindenmayer
