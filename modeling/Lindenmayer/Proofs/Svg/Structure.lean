import Lindenmayer.Proofs.Svg.Points
import Lindenmayer.Proofs.Xml.Contents

/-! The structure of a document. It is read back with its parts, each as it was meant, if and only if the
texts that are written into its attributes are verbatim and its title has only characters of XML: the
title is escaped, and the other texts are not. -/

namespace Lindenmayer.Svg

open Xml (Node Verbatim IsName isName_literal written indent)

/-- What stands in a root. -/
inductive Part
  | title (text : List Char)
  | background (fill : List Char)
  | polyline (path : Path Float)

abbrev Attributes := List (List Char × List Char)

def rootAttributes (width height : List Char) : Attributes :=
  [("xmlns".toList, "http://www.w3.org/2000/svg".toList), ("version".toList, "1.1".toList),
    ("viewBox".toList, spaced [['0'], ['0'], width, height]), ("width".toList, width),
    ("height".toList, height)]

def backgroundAttributes (width height fill : List Char) : Attributes :=
  [("x".toList, ['0']), ("y".toList, ['0']), ("width".toList, width), ("height".toList, height),
    ("fill".toList, fill)]

def polylineAttributes (places : ℕ) (style : Style) (path : Path Float) : Attributes :=
  [("points".toList, pointsText places path), ("stroke".toList, style.stroke.toList),
    ("stroke-width".toList, Decimal.fixed places style.strokeWidth),
    ("fill".toList, style.fill.toList), ("stroke-linecap".toList, style.linecap.toList),
    ("stroke-linejoin".toList, style.linejoin.toList)]

def parts (canvas : Canvas) (title : Option String) (paths : List (Path Float)) : List Part :=
  (title.filter (!·.isEmpty)).toList.map (.title ·.toList) ++
    (canvas.background.filter isPainted).toList.map (.background ·.toList) ++ paths.map .polyline

section Parts

variable (canvas : Canvas) (places : ℕ)

def Part.node : Part → Node
  | .title text => .element "title".toList [] [.text (Text.unifyBreaks [] text)]
  | .background fill => .element "rect".toList (backgroundAttributes
      (Decimal.fixed places canvas.surface.width) (Decimal.fixed places canvas.surface.height) fill) []
  | .polyline path => .element "polyline".toList (polylineAttributes places canvas.style path) []

def emptyTag (name : List Char) (as : Attributes) : List Char :=
  '<' :: (name ++ (as.flatMap written ++ " />".toList))

def Part.source : Part → List Char
  | .title text => "<title>".toList ++ escapeTitle text ++ "</title>".toList
  | .background fill => emptyTag "rect".toList (backgroundAttributes
      (Decimal.fixed places canvas.surface.width) (Decimal.fixed places canvas.surface.height) fill)
  | .polyline path => emptyTag "polyline".toList (polylineAttributes places canvas.style path)

lemma Part.source_title (text : List Char) :
    (title text).source canvas places = '<' :: ("title".toList ++ '>' ::
      (escapeTitle text ++ '<' :: '/' :: ("title".toList ++ ['>']))) := by
  have hsource : (title text).source canvas places =
    "<title>".toList ++ escapeTitle text ++ "</title>".toList := rfl
  rw [hsource, List.append_assoc]
  rfl

lemma Part.source_background (fill : List Char) :
    (background fill).source canvas places = emptyTag "rect".toList (backgroundAttributes
      (Decimal.fixed places canvas.surface.width) (Decimal.fixed places canvas.surface.height)
      fill) := rfl

lemma Part.source_polyline (path : Path Float) :
    (polyline path).source canvas places =
      emptyTag "polyline".toList (polylineAttributes places canvas.style path) := rfl

/-- The root of a document, with its parts on lines of their own. -/
def root (title : Option String) (paths : List (Path Float)) : Node :=
  .element "svg".toList
    (rootAttributes (Decimal.fixed places canvas.surface.width)
      (Decimal.fixed places canvas.surface.height))
    ((parts canvas title paths).flatMap (fun part => [.text indent, part.node canvas places]) ++
      [.text ['\n']])

end Parts

lemma spaced_cons (w : List Char) (ws : List (List Char)) :
    spaced (w :: ws) = w ++ ws.flatMap (' ' :: ·) := by
  induction ws generalizing w with
  | nil => rw [spaced, List.intercalate_singleton, List.flatMap_nil, List.append_nil]
  | cons w' ws ih =>
    rw [spaced, List.intercalate_cons_cons, ← spaced, ih, List.flatMap_cons, List.append_assoc]
    rfl

lemma cons_attr (name : String) (value : List Char) :
    ' ' :: attr name value = written (name.toList, value) := by
  rw [attr, written, List.append_assoc]
  rfl

lemma openLine_eq (width height : List Char) :
    openLine width height =
      '<' :: ("svg".toList ++ ((rootAttributes width height).flatMap written ++ ['>'])) := by
  rw [openLine, spaced_cons]
  simp only [List.flatMap_cons, List.flatMap_nil, cons_attr, rootAttributes, List.append_assoc]
  rfl

lemma titleLine_eq (canvas : Canvas) (places : ℕ) (title : Option String) :
    titleLine title = ((title.filter (!·.isEmpty)).toList.map (.title ·.toList)).map
      fun part : Part => "  ".toList ++ part.source canvas places := by
  cases title with
  | none => rfl
  | some s =>
    rw [titleLine, Option.filter_some]
    cases s.isEmpty <;> rfl

lemma backgroundLine_eq (canvas : Canvas) (places : ℕ) :
    backgroundLine (Decimal.fixed places canvas.surface.width)
        (Decimal.fixed places canvas.surface.height) canvas.background =
      ((canvas.background.filter isPainted).toList.map (.background ·.toList)).map
        fun part : Part => "  ".toList ++ part.source canvas places := by
  cases canvas.background with
  | none => rfl
  | some s =>
    rw [backgroundLine, Option.filter_some]
    cases isPainted s with
    | false => rfl
    | true =>
      rw [if_pos rfl, if_pos rfl, spaced_cons, Option.toList_some, List.map_singleton,
        List.map_singleton, Part.source_background]
      simp only [List.flatMap_cons, List.flatMap_nil, emptyTag, backgroundAttributes, ← cons_attr,
        List.append_assoc]
      rfl

lemma polylineLine_eq (canvas : Canvas) (places : ℕ) (path : Path Float) :
    polylineLine places (canvas.style.attributes places) path =
      "  ".toList ++ (Part.polyline path).source canvas places := by
  rw [Part.source_polyline, polylineLine, spaced_cons, Style.attributes, spaced_cons]
  simp only [List.flatMap_cons, List.flatMap_nil, emptyTag, polylineAttributes, ← cons_attr,
    List.cons_append, List.append_assoc]
  rfl

lemma lines_eq_parts (canvas : Canvas) (places : ℕ) (title : Option String)
    (paths : List (Path Float)) :
    lines canvas places title paths =
      declarationLine ::
        openLine (Decimal.fixed places canvas.surface.width)
          (Decimal.fixed places canvas.surface.height) ::
        (parts canvas title paths).map (fun part => "  ".toList ++ part.source canvas places) ++
        [closeLine] := by
  have hpolyline : paths.map (polylineLine places (canvas.style.attributes places)) =
      (paths.map Part.polyline).map fun part => "  ".toList ++ part.source canvas places := by
    rw [List.map_map]
    exact List.map_congr_left fun path _ => polylineLine_eq canvas places path
  rw [lines, titleLine_eq canvas places, backgroundLine_eq, hpolyline, parts, List.map_append,
    List.map_append]
  simp only [List.cons_append, List.append_assoc]

lemma textOfLines_parts (canvas : Canvas) (places : ℕ) (ps : List Part) :
    '\n' :: textOfLines (ps.map (fun part => "  ".toList ++ part.source canvas places) ++ [closeLine]) =
      ps.flatMap (fun part => indent ++ part.source canvas places) ++
        '\n' :: (closeLine ++ ['\n']) := by
  induction ps with
  | nil => rfl
  | cons part ps ih =>
    rw [List.flatMap_cons, List.append_assoc, ← ih, List.map_cons, List.cons_append, textOfLines,
      List.flatMap_cons]
    simp [indent, textOfLines]

/-- The text of a document, with its parts in the place of its lines. -/
lemma textOfLines_lines (canvas : Canvas) (places : ℕ) (title : Option String)
    (paths : List (Path Float)) :
    textOfLines (lines canvas places title paths) =
      declarationLine ++ '\n' ::
        (openLine (Decimal.fixed places canvas.surface.width)
          (Decimal.fixed places canvas.surface.height) ++
        ((parts canvas title paths).flatMap (fun part => indent ++ part.source canvas places) ++
          '\n' :: (closeLine ++ ['\n']))) := by
  rw [lines_eq_parts, ← textOfLines_parts]
  simp [textOfLines]

section Verbatim

lemma verbatim_literal {s : List Char}
    (h : s.all (fun c => Xml.isChar c && !(['"', '&', '<', '\t', '\n', '\r'].contains c)) = true) :
    Verbatim s := by
  intro c hc
  have hall := List.all_eq_true.mp h c hc
  simpa using hall

lemma verbatim_append {s u : List Char} (hs : Verbatim s) (hu : Verbatim u) : Verbatim (s ++ u) :=
  fun c hc => (List.mem_append.mp hc).elim (hs c) (hu c)

lemma verbatim_spaced {ws : List (List Char)} (h : ∀ w ∈ ws, Verbatim w) :
    Verbatim (spaced ws) := by
  intro c hc
  rcases Text.mem_intercalate hc with hc | ⟨w, hw, hc⟩
  · exact (verbatim_literal rfl : Verbatim [' ']) c hc
  · exact h w hw c hc

lemma verbatim_fixed (places : ℕ) (x : Float) : Verbatim (Decimal.fixed places x) := by
  intro c hc
  rcases Decimal.mem_fixed hc with h | h
  · have hdigit := h
    simp only [Char.isDigit, Bool.and_eq_true, decide_eq_true_eq] at hdigit
    have lo : 48 ≤ c.toNat := hdigit.1
    have hi : c.toNat ≤ 57 := hdigit.2
    refine ⟨?_, fun hmem => ?_⟩
    · simp only [Xml.isChar, Xml.inRanges, List.any_cons, List.any_nil, Bool.or_eq_true,
        Bool.and_eq_true, decide_eq_true_eq]
      omega
    · have hall : ['"', '&', '<', '\t', '\n', '\r'].all (!·.isDigit) = true := rfl
      have hnot := List.all_eq_true.mp hall c hmem
      rw [h] at hnot
      cases hnot
  · exact (verbatim_literal rfl : Verbatim ['-', '.', 'a', 'f', 'i', 'n']) c h

lemma verbatim_pointsText (places : ℕ) (path : Path Float) : Verbatim (pointsText places path) := by
  refine verbatim_spaced fun w hw => ?_
  obtain ⟨p, -, rfl⟩ := List.mem_map.mp hw
  have hcomma : Verbatim [','] := verbatim_literal rfl
  exact verbatim_append (verbatim_fixed places p.1) (verbatim_append hcomma (verbatim_fixed places p.2))

end Verbatim

def Style.Verbatim (style : Style) : Prop :=
  Xml.Verbatim style.stroke.toList ∧ Xml.Verbatim style.fill.toList ∧
    Xml.Verbatim style.linecap.toList ∧ Xml.Verbatim style.linejoin.toList

def Part.Faithful (style : Style) : Part → Prop
  | .title text => ∀ c ∈ text, Xml.isChar c = true
  | .background fill => Xml.Verbatim fill
  | .polyline _ => style.Verbatim

section Reading

variable (canvas : Canvas) (places : ℕ)

lemma readsAs_title {text : List Char} (h : text ≠ []) :
    Xml.ReadsAs ((Part.title text).source canvas places) ((Part.title text).node canvas places)
      ((Part.title text).Faithful canvas.style) where
  opens := ⟨'t', _, rfl, by decide⟩
  read fuel rest rest' := by
    have hsource : (Part.title text).source canvas places ++ rest =
        '<' :: ("title".toList ++ (([] : Attributes).flatMap written ++
          '>' :: (escapeTitle text ++ '<' :: '/' :: ("title".toList ++ '>' :: rest)))) := by
      rw [Part.source_title, List.flatMap_nil, List.nil_append]
      simp only [List.cons_append, List.append_assoc, List.nil_append]
    have hend := Xml.endTag?_append "title".toList rest
    rw [hsource]
    refine (Xml.element?_open_iff (isName_literal rfl) (fun _ ha => absurd ha List.not_mem_nil)
      List.nodup_nil).trans ?_
    rw [Xml.content?_close (notMem_escapeTitle (.inl rfl) text)]
    constructor
    · rintro ⟨-, r, hcontent, hr⟩
      obtain ⟨ts, hts, hcontent⟩ := Option.bind_eq_some_iff.mp hcontent
      obtain ⟨rfl, rfl⟩ := Prod.mk.inj (Option.some.inj hcontent)
      exact ⟨((Xml.texts?_escapeTitle_iff h).mp hts).2, Option.some.inj (hr.symm.trans hend)⟩
    · rintro ⟨hchars, rfl⟩
      refine ⟨fun _ ha => absurd ha List.not_mem_nil, _, ?_, hend⟩
      rw [(Xml.texts?_escapeTitle_iff h).mpr ⟨rfl, hchars⟩]
      rfl

lemma emptyTag_append (name : List Char) (as : Attributes) (rest : List Char) :
    emptyTag name as ++ rest =
      '<' :: (name ++ (as.flatMap written ++ ' ' :: '/' :: '>' :: rest)) := by
  rw [emptyTag, List.cons_append, List.append_assoc, List.append_assoc]
  rfl

lemma readsAs_background (fill : List Char) :
    Xml.ReadsAs ((Part.background fill).source canvas places)
      ((Part.background fill).node canvas places) ((Part.background fill).Faithful canvas.style) where
  opens := ⟨'r', _, rfl, by decide⟩
  read fuel rest rest' := by
    rw [Part.source_background, emptyTag_append]
    have hzero : Verbatim ['0'] := verbatim_literal rfl
    have hwidth := verbatim_fixed places canvas.surface.width
    have hheight := verbatim_fixed places canvas.surface.height
    set width := Decimal.fixed places canvas.surface.width
    set height := Decimal.fixed places canvas.surface.height
    have hnames : ∀ a ∈ backgroundAttributes width height fill, IsName a.1 := by
      simp only [backgroundAttributes, List.forall_mem_cons]
      exact ⟨isName_literal rfl, isName_literal rfl, isName_literal rfl, isName_literal rfl,
        isName_literal rfl, fun _ ha => absurd ha List.not_mem_nil⟩
    have hkeys : (backgroundAttributes width height fill).map Prod.fst =
      ["x".toList, "y".toList, "width".toList, "height".toList, "fill".toList] := rfl
    have hnodup : ((backgroundAttributes width height fill).map Prod.fst).Nodup := by
      rw [hkeys]
      decide
    refine (Xml.element?_empty_iff (isName_literal rfl) hnames hnodup).trans (and_congr_left' ?_)
    simp only [backgroundAttributes, List.forall_mem_cons]
    exact ⟨fun h => h.2.2.2.2.1,
      fun h => ⟨hzero, hzero, hwidth, hheight, h, fun _ ha => absurd ha List.not_mem_nil⟩⟩

lemma readsAs_polyline (path : Path Float) :
    Xml.ReadsAs ((Part.polyline path).source canvas places)
      ((Part.polyline path).node canvas places) ((Part.polyline path).Faithful canvas.style) where
  opens := ⟨'p', _, rfl, by decide⟩
  read fuel rest rest' := by
    rw [Part.source_polyline, emptyTag_append]
    have hnames : ∀ a ∈ polylineAttributes places canvas.style path, IsName a.1 := by
      simp only [polylineAttributes, List.forall_mem_cons]
      exact ⟨isName_literal rfl, isName_literal rfl, isName_literal rfl, isName_literal rfl,
        isName_literal rfl, isName_literal rfl, fun _ ha => absurd ha List.not_mem_nil⟩
    have hkeys : (polylineAttributes places canvas.style path).map Prod.fst =
      ["points".toList, "stroke".toList, "stroke-width".toList, "fill".toList,
        "stroke-linecap".toList, "stroke-linejoin".toList] := rfl
    have hnodup : ((polylineAttributes places canvas.style path).map Prod.fst).Nodup := by
      rw [hkeys]
      decide
    refine (Xml.element?_empty_iff (isName_literal rfl) hnames hnodup).trans (and_congr_left' ?_)
    have hpoints := verbatim_pointsText places path
    have hwidth := verbatim_fixed places canvas.style.strokeWidth
    simp only [polylineAttributes, List.forall_mem_cons]
    constructor
    · rintro ⟨-, hstroke, -, hfill, hlinecap, hlinejoin, -⟩
      exact ⟨hstroke, hfill, hlinecap, hlinejoin⟩
    · rintro ⟨hstroke, hfill, hlinecap, hlinejoin⟩
      exact ⟨hpoints, hstroke, hwidth, hfill, hlinecap, hlinejoin,
        fun _ ha => absurd ha List.not_mem_nil⟩

lemma Part.readsAs {part : Part} (h : part ≠ .title []) :
    Xml.ReadsAs (part.source canvas places) (part.node canvas places)
      (part.Faithful canvas.style) := by
  cases part with
  | title text => exact readsAs_title canvas places fun htext => h (congrArg Part.title htext)
  | background fill => exact readsAs_background canvas places fill
  | polyline path => exact readsAs_polyline canvas places path

lemma ne_title_nil_of_mem_parts {title : Option String} {paths : List (Path Float)} {part : Part}
    (h : part ∈ parts canvas title paths) : part ≠ .title [] := by
  rw [parts, List.mem_append, List.mem_append] at h
  rcases h with (h | h) | h
  · obtain ⟨s, hs, rfl⟩ := List.mem_map.mp h
    obtain ⟨-, hne⟩ := Option.filter_eq_some_iff.mp (Option.mem_toList.mp hs)
    intro heq
    have hempty : s = "" := String.toList_eq_nil_iff.mp (Part.title.inj heq)
    rw [hempty] at hne
    cases hne
  · obtain ⟨s, -, rfl⟩ := List.mem_map.mp h
    nofun
  · obtain ⟨path, -, rfl⟩ := List.mem_map.mp h
    nofun

lemma declaration?_declarationLine (s : List Char) :
    Xml.declaration? (declarationLine ++ '\n' :: s) = some ('\n' :: s) := by
  let keys : Attributes :=
    [("version".toList, "1.0".toList), ("encoding".toList, "UTF-8".toList)]
  have hnames : ∀ a ∈ keys, IsName a.1 := by
    simp only [keys, List.forall_mem_cons]
    exact ⟨isName_literal rfl, isName_literal rfl, fun _ ha => absurd ha List.not_mem_nil⟩
  have hverbatim : ∀ a ∈ keys, Verbatim a.2 := by
    simp only [keys, List.forall_mem_cons]
    exact ⟨verbatim_literal rfl, verbatim_literal rfl, fun _ ha => absurd ha List.not_mem_nil⟩
  have hend : Xml.Ends ('?' :: '>' :: '\n' :: s) ('?' :: '>' :: '\n' :: s) := by
    refine ⟨?_, fun fuel => rfl⟩
    rintro c ⟨⟩
    decide
  have hline : declarationLine ++ '\n' :: s =
    "<?xml".toList ++ (keys.flatMap written ++ '?' :: '>' :: '\n' :: s) := rfl
  have hread := (Xml.attributes?_ends_iff hnames hend).mpr ⟨hverbatim, rfl⟩
  rw [hline, Xml.declaration?, List.dropPrefix?_append_of_beq _ (beq_self_eq_true _)]
  simp only
  rw [hread]
  rfl

/-- The whole text is read as the whole document just when its parts are faithful. -/
lemma read_textOfLines_lines (title : Option String) (paths : List (Path Float)) :
    Xml.read (textOfLines (lines canvas places title paths)) =
        some (root canvas places title paths) ↔
      ∀ part ∈ parts canvas title paths, part.Faithful canvas.style := by
  rw [textOfLines_lines, openLine_eq, root]
  have hwidth := verbatim_fixed places canvas.surface.width
  have hheight := verbatim_fixed places canvas.surface.height
  set width := Decimal.fixed places canvas.surface.width
  set height := Decimal.fixed places canvas.surface.height
  have hnames : ∀ a ∈ rootAttributes width height, IsName a.1 := by
    simp only [rootAttributes, List.forall_mem_cons]
    exact ⟨isName_literal rfl, isName_literal rfl, isName_literal rfl, isName_literal rfl,
      isName_literal rfl, fun _ ha => absurd ha List.not_mem_nil⟩
  have hkeys : (rootAttributes width height).map Prod.fst =
    ["xmlns".toList, "version".toList, "viewBox".toList, "width".toList, "height".toList] := rfl
  have hnodup : ((rootAttributes width height).map Prod.fst).Nodup := by
    rw [hkeys]
    decide
  have hverbatim : ∀ a ∈ rootAttributes width height, Verbatim a.2 := by
    have hzero : Verbatim ['0'] := verbatim_literal rfl
    have hbox : Verbatim (spaced [['0'], ['0'], width, height]) := by
      apply verbatim_spaced
      simp only [List.forall_mem_cons]
      exact ⟨hzero, hzero, hwidth, hheight, fun _ hw => absurd hw List.not_mem_nil⟩
    simp only [rootAttributes, List.forall_mem_cons]
    exact ⟨verbatim_literal rfl, verbatim_literal rfl, hbox, hwidth, hheight,
      fun _ ha => absurd ha List.not_mem_nil⟩
  have hparts : ∀ part ∈ parts canvas title paths, Xml.ReadsAs (part.source canvas places)
      (part.node canvas places) (part.Faithful canvas.style) :=
    fun part hpart => part.readsAs canvas places (ne_title_nil_of_mem_parts canvas hpart)
  have hclose : ∀ fuel, Xml.content? (fuel + 1) ('\n' :: (closeLine ++ ['\n'])) =
      some ([.text ['\n']], '<' :: '/' :: ("svg".toList ++ ['>', '\n'])) :=
    fun fuel => Xml.content?_close (by decide : '<' ∉ ['\n'])
  have hend := Xml.endTag?_append "svg".toList ['\n']
  set inner := (parts canvas title paths).flatMap (fun part => indent ++ part.source canvas places) ++
    '\n' :: (closeLine ++ ['\n']) with hinner
  set tag := '<' :: ("svg".toList ++ ((rootAttributes width height).flatMap written ++ '>' :: inner))
    with htag
  have hassoc : '<' :: ("svg".toList ++ ((rootAttributes width height).flatMap written ++ ['>'])) ++
      inner = tag := by
    rw [htag, List.cons_append, List.append_assoc, List.append_assoc]
    rfl
  have hread : Xml.read (declarationLine ++ '\n' :: tag) =
      (Xml.element? (Xml.content? (('\n' :: tag).length + 1)) tag).bind fun p =>
        if p.2.all Xml.isSpace then some p.1 else none := by
    rw [Xml.read, declaration?_declarationLine]
    rfl
  obtain ⟨fuel, hfuel⟩ : ∃ fuel, ('\n' :: tag).length + 1 =
      fuel + 1 + (parts canvas title paths).length := by
    have hle : (parts canvas title paths).length ≤ ((parts canvas title paths).flatMap
        fun part => indent ++ part.source canvas places).length :=
      Xml.length_le_length_flatMap (fun _ => List.cons_ne_nil _ _) _
    refine ⟨('\n' :: tag).length - (parts canvas title paths).length, ?_⟩
    simp only [htag, hinner, List.length_cons, List.length_append]
    omega
  rw [hassoc, hread, hfuel]
  constructor
  · intro h
    obtain ⟨⟨node, rest⟩, helement, h⟩ := Option.bind_eq_some_iff.mp h
    split at h
    · obtain rfl := Option.some.inj h
      obtain ⟨-, r, hcontent, -⟩ :=
        (Xml.element?_open_iff (isName_literal rfl) hnames hnodup).mp helement
      exact ((Xml.content?_children_iff hparts).mp hcontent).1
    · cases h
  · intro hfaithful
    have hcontent := (Xml.content?_children_iff hparts).mpr ⟨hfaithful, hclose fuel⟩
    have helement := (Xml.element?_open_iff (isName_literal rfl) hnames hnodup).mpr
      ⟨hverbatim, _, hcontent, hend⟩
    rw [helement]
    rfl

end Reading

/-- A title of characters that a document can hold, and other texts that stand for themselves. -/
structure FaithfulTexts (canvas : Canvas) (title : Option String) : Prop where
  title : ∀ s ∈ title, ∀ c ∈ s.toList, Xml.isChar c = true
  background : ∀ s ∈ canvas.background, isPainted s = true → Verbatim s.toList
  style : canvas.style.Verbatim

lemma forall_parts_faithful_iff {canvas : Canvas} {title : Option String}
    {paths : List (Path Float)} (hpaths : paths ≠ []) :
    (∀ part ∈ parts canvas title paths, part.Faithful canvas.style) ↔
      FaithfulTexts canvas title := by
  simp only [parts, List.forall_mem_append, List.forall_mem_map, Option.mem_toList,
    Option.filter_eq_some_iff]
  constructor
  · rintro ⟨⟨htitle, hbackground⟩, hstyle⟩
    refine ⟨fun s hs => ?_, fun s hs hpainted => hbackground s ⟨hs, hpainted⟩, ?_⟩
    · cases hempty : s.isEmpty with
      | true =>
        rw [String.isEmpty_iff.mp hempty]
        exact fun _ hc => absurd hc List.not_mem_nil
      | false => exact htitle s ⟨hs, by rw [hempty]; rfl⟩
    · obtain ⟨path, paths, rfl⟩ := List.exists_cons_of_ne_nil hpaths
      exact hstyle path List.mem_cons_self
  · rintro ⟨htitle, hbackground, hstyle⟩
    exact ⟨⟨fun s hs => htitle s hs.1, fun s hs => hbackground s hs.1 hs.2⟩, fun _ _ => hstyle⟩

lemma countP_flatMap_indent (canvas : Canvas) (places : ℕ) {p : Node → Bool}
    (hp : p (.text indent) = false) (ps : List Part) :
    (ps.flatMap fun part => [.text indent, part.node canvas places]).countP p =
      ps.countP fun part => p (part.node canvas places) := by
  induction ps with
  | nil => rfl
  | cons part ps ih =>
    rw [List.flatMap_cons, List.countP_append, ih, List.countP_cons, List.countP_cons,
      List.countP_cons, List.countP_nil, hp]
    simp [Nat.add_comm]

lemma countP_isNamed_root (canvas : Canvas) (places : ℕ) (title : Option String)
    (paths : List (Path Float)) :
    (root canvas places title paths).children.countP (·.isNamed "polyline".toList) =
      paths.length := by
  have hchildren : (root canvas places title paths).children =
    (parts canvas title paths).flatMap (fun part => [.text indent, part.node canvas places]) ++
      [.text ['\n']] := rfl
  have hbreak : [Node.text ['\n']].countP (·.isNamed "polyline".toList) = 0 := rfl
  have htitle : ((title.filter (!·.isEmpty)).toList.map (Part.title ·.toList)).countP
      (fun part => (part.node canvas places).isNamed "polyline".toList) = 0 := by
    rw [List.countP_map]
    exact List.countP_eq_zero.mpr fun _ _ => Bool.false_ne_true
  have hbackground : ((canvas.background.filter isPainted).toList.map
      (Part.background ·.toList)).countP
        (fun part => (part.node canvas places).isNamed "polyline".toList) = 0 := by
    rw [List.countP_map]
    exact List.countP_eq_zero.mpr fun _ _ => Bool.false_ne_true
  have hpaths : (paths.map Part.polyline).countP
      (fun part => (part.node canvas places).isNamed "polyline".toList) = paths.length := by
    rw [List.countP_map]
    exact List.countP_eq_length.mpr fun _ _ => rfl
  rw [hchildren, List.countP_append, hbreak, countP_flatMap_indent canvas places rfl, parts,
    List.countP_append, List.countP_append, htitle, hbackground, hpaths, Nat.zero_add,
    Nat.add_zero]

/-- A document is read back as its parts, a polyline for each path and every text as it was given, just
when its texts are faithful. -/
theorem document_read_iff {canvas : Canvas} {title : Option String} {paths : List (Path Float)}
    {bounds : Bounds Float} {text : List Char} (h : document canvas title paths bounds = .ok text) :
    ∃ (places : ℕ) (placed : List (Path Float)),
      canvas.precision = places ∧ canvas.surface.fit paths bounds = some placed ∧
      (root canvas places title placed).children.countP (·.isNamed "polyline".toList) =
        paths.length ∧
      (Xml.read text = some (root canvas places title placed) ↔ FaithfulTexts canvas title) := by
  obtain ⟨hpaths, placed, places, hfit, hplaces, rfl⟩ := document_eq_ok_iff.mp h
  refine ⟨places, placed, Decimal.placesOf_eq_ok hplaces, hfit, ?_, ?_⟩
  · obtain ⟨-, rfl⟩ := Surface.fit_eq_some_iff.mp hfit
    rw [countP_isNamed_root, List.length_map]
  · rw [read_textOfLines_lines]
    apply forall_parts_faithful_iff
    obtain ⟨-, rfl⟩ := Surface.fit_eq_some_iff.mp hfit
    exact fun hnil => hpaths (List.map_eq_nil_iff.mp hnil)

lemma faithfulTexts_literal {canvas : Canvas} {title : String}
    (htitle : title.toList.all Xml.isChar = true) (hbackground : canvas.background = none)
    (hstyle : canvas.style.Verbatim) : FaithfulTexts canvas (some title) where
  title s hs := by
    obtain rfl := Option.some.inj hs
    exact List.all_eq_true.mp htitle
  background s hs := by
    rw [hbackground] at hs
    cases hs
  style := hstyle

/-- A title with markup in it is read back as it was given. -/
theorem document_read_comparison :
    let canvas : Canvas := ⟨⟨100, 50, 10, true⟩, 2, {}, none⟩
    ∃ text placed, document canvas (some "a < b & \"c\" ]]>") [[(0, 0), (1, 2)], [(1, 2), (3, 0)]]
        ⟨0, 3, 0, 2⟩ = .ok text ∧
      Xml.read text = some (root canvas 2 (some "a < b & \"c\" ]]>") placed) := by
  intro canvas
  have hwritten : (document canvas (some "a < b & \"c\" ]]>") [[(0, 0), (1, 2)], [(1, 2), (3, 0)]]
      ⟨0, 3, 0, 2⟩).toOption.isSome = true := by
    decide +kernel
  obtain ⟨text, htext⟩ := Option.isSome_iff_exists.mp hwritten
  have hdocument := Except.toOption_eq_some_iff.mp htext
  obtain ⟨places, placed, hplaces, -, -, hread⟩ := document_read_iff hdocument
  obtain rfl : 2 = places := Int.ofNat.inj hplaces
  have hstroke : Verbatim "#000".toList := verbatim_literal rfl
  have hfill : Verbatim "none".toList := verbatim_literal rfl
  have hround : Verbatim "round".toList := verbatim_literal rfl
  have hfaithful : FaithfulTexts canvas (some "a < b & \"c\" ]]>") :=
    faithfulTexts_literal (by decide +kernel) rfl ⟨hstroke, hfill, hround, hround⟩
  exact ⟨text, placed, hdocument, hread.mpr hfaithful⟩

/-- A stroke that closes its own attribute and tag, and opens another polyline. -/
theorem document_stroke_polyline :
    let stroke := "#000\"/><polyline points=\"0,0 9,9"
    let style : Style := { ({} : Style) with stroke }
    ∃ text node, document ⟨⟨100, 100, 0, false⟩, 3, style, none⟩ none [[(0, 0), (1, 0)]]
        ⟨0, 1, 0, 0⟩ = .ok text ∧
      stroke.toList.all Xml.isChar = true ∧ Xml.read text = some node ∧
      node.children.countP (·.isNamed "polyline".toList) = 2 := by
  intro stroke style
  have hcount : ((document ⟨⟨100, 100, 0, false⟩, 3, style, none⟩ none [[(0, 0), (1, 0)]]
      ⟨0, 1, 0, 0⟩).toOption.bind Xml.read).map
        (fun node => node.children.countP (·.isNamed "polyline".toList)) = some 2 := by
    decide +kernel
  obtain ⟨node, hnode, htwo⟩ := Option.map_eq_some_iff.mp hcount
  obtain ⟨text, htext, hread⟩ := Option.bind_eq_some_iff.mp hnode
  exact ⟨text, node, Except.toOption_eq_some_iff.mp htext, by decide +kernel, hread, htwo⟩

end Lindenmayer.Svg
