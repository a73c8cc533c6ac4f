import Lindenmayer.Proofs.Except
import Lindenmayer.Proofs.Svg.Points

/-! The title of a document. What is written between its tags has no bracket in it, and the title is read
back from it. -/

namespace Lindenmayer.Svg

/-- What stands before the first place of a mark, and what behind it. -/
def splitAtMark (mark : List Char) : List Char → Option (List Char × List Char)
  | [] => none
  | c :: s =>
    if mark.isPrefixOf (c :: s) then some ([], (c :: s).drop mark.length)
    else (splitAtMark mark s).map fun p => (c :: p.1, p.2)

def between? (left right s : List Char) : Option (List Char) :=
  (splitAtMark left s).bind fun p => (splitAtMark right p.2).map Prod.fst

/-- What a text has between the tags of its title. -/
def titleText? (text : List Char) : Option (List Char) :=
  between? "<title>".toList "</title>".toList text

section Marks

variable {c : Char} {mark : List Char}

lemma splitAtMark_cons {s : List Char} (d : Char) (h : mark.isPrefixOf (d :: s) = false) :
    splitAtMark mark (d :: s) = (splitAtMark mark s).map fun p => (d :: p.1, p.2) := by
  rw [splitAtMark, h, if_neg Bool.false_ne_true]

lemma splitAtMark_self (c : Char) (mark s : List Char) :
    splitAtMark (c :: mark) (c :: (mark ++ s)) = some ([], s) := by
  have hprefix : (c :: mark).isPrefixOf (c :: (mark ++ s)) = true :=
    List.isPrefixOf_iff_prefix.mpr (List.prefix_append (c :: mark) s)
  rw [splitAtMark, if_pos hprefix, ← List.cons_append, List.drop_left]

lemma splitAtMark_append {front : List Char} (h : c ∉ front) (s : List Char) :
    splitAtMark (c :: mark) (front ++ s) =
      (splitAtMark (c :: mark) s).map fun p => (front ++ p.1, p.2) := by
  induction front with
  | nil => simp
  | cons d front ih =>
    obtain ⟨hd, hfront⟩ := not_or.mp (mt List.mem_cons.mpr h)
    have hprefix : (c :: mark).isPrefixOf (d :: (front ++ s)) = false := by
      simp [List.isPrefixOf, hd]
    rw [List.cons_append, splitAtMark_cons d hprefix, ih hfront, Option.map_map]
    rfl

/-- Marks of one length with another second character are passed over. -/
lemma splitAtMark_pass {d e : Char} {front : List Char} (hne : d ≠ e) (hc : c ≠ e)
    (hfront : c ∉ front) (s : List Char) :
    splitAtMark (c :: d :: mark) (c :: e :: (front ++ s)) =
      (splitAtMark (c :: d :: mark) s).map fun p => (c :: e :: (front ++ p.1), p.2) := by
  have hprefix : (c :: d :: mark).isPrefixOf (c :: (e :: front ++ s)) = false := by
    simp [List.isPrefixOf, hne]
  have hrest : c ∉ e :: front := by simp [hc, hfront]
  rw [← List.cons_append, splitAtMark_cons c hprefix, splitAtMark_append hrest, Option.map_map]
  rfl

lemma between?_append {d : Char} {left right front inner s t : List Char} (hinner : d ∉ inner)
    (h : splitAtMark left t = some (front, inner ++ d :: (right ++ s))) :
    between? left (d :: right) t = some inner := by
  rw [between?, h, Option.bind_some, splitAtMark_append hinner, splitAtMark_self, Option.map_some,
    Option.map_some, List.append_nil]

end Marks

section Titled

variable {canvas : Canvas} {title : String} {paths : List (Path Float)}

/-- Two tags stand before the title, and both have another name. -/
lemma textOfLines_titled (canvas : Canvas) (places : ℕ) (htitle : title.isEmpty = false)
    (paths : List (Path Float)) :
    ∃ head opening rest, '<' ∉ head ∧ '<' ∉ opening ∧
      textOfLines (lines canvas places (some title) paths) =
        '<' :: '?' :: (head ++ '<' :: 's' :: (opening ++ '<' :: 't' :: ("itle>".toList ++
          (escapeTitle title.toList ++ '<' :: ("/title>".toList ++ rest))))) := by
  have hnumeral (x : Float) : '<' ∉ Decimal.fixed places x := notMem_fixed rfl (by decide) places x
  have hline : titleLine (some title) =
      ["  <title>".toList ++ escapeTitle title.toList ++ "</title>".toList] := by
    rw [titleLine, htitle, if_neg Bool.false_ne_true]
  have hopen (width height : List Char) :
      openLine width height = '<' :: 's' :: (openLine width height).drop 2 := rfl
  have hdeclaration : declarationLine = '<' :: '?' :: declarationLine.drop 2 := rfl
  have htag : "  <title>".toList = "  ".toList ++ '<' :: 't' :: "itle>".toList := rfl
  have hend : "</title>".toList = '<' :: "/title>".toList := rfl
  refine ⟨declarationLine.drop 2 ++ ['\n'], (openLine (Decimal.fixed places canvas.surface.width)
      (Decimal.fixed places canvas.surface.height)).drop 2 ++ "\n  ".toList,
    '\n' :: textOfLines (backgroundLine (Decimal.fixed places canvas.surface.width)
      (Decimal.fixed places canvas.surface.height) canvas.background ++
        paths.map (polylineLine places (canvas.style.attributes places)) ++ [closeLine]), ?_, ?_, ?_⟩
  · decide
  · simp [openLine, spaced, attr, List.intercalate, hnumeral]
  · rw [lines, hline, htag, hend, hopen, hdeclaration]
    simp [textOfLines]

lemma titleText?_lines (canvas : Canvas) (places : ℕ) (htitle : title.isEmpty = false)
    (paths : List (Path Float)) :
    titleText? (textOfLines (lines canvas places (some title) paths)) =
      some (escapeTitle title.toList) := by
  obtain ⟨head, opening, rest, hhead, hopening, htext⟩ := textOfLines_titled canvas places htitle paths
  have htag : "<title>".toList = '<' :: 't' :: "itle>".toList := rfl
  have hend : "</title>".toList = '<' :: "/title>".toList := rfl
  have hsplit (s : List Char) : splitAtMark ('<' :: 't' :: "itle>".toList)
      ('<' :: '?' :: (head ++ '<' :: 's' :: (opening ++ '<' :: 't' :: ("itle>".toList ++ s)))) =
        some ('<' :: '?' :: (head ++ '<' :: 's' :: opening), s) := by
    have hself := splitAtMark_self '<' ('t' :: "itle>".toList) s
    rw [List.cons_append] at hself
    rw [splitAtMark_pass (by decide) (by decide) hhead, splitAtMark_pass (by decide) (by decide) hopening,
      hself, Option.map_some, Option.map_some, List.append_nil]
  rw [titleText?, htext, htag, hend]
  exact between?_append (notMem_escapeTitle (.inl rfl) title.toList) (hsplit _)

/-- The title of a document is written without brackets, with no ampersand but in front of an entity, and
so that resolving the entities gives it back: no other title is written alike. -/
theorem document_title {bounds : Bounds Float} {text : List Char} (htitle : title.isEmpty = false)
    (h : document canvas (some title) paths bounds = .ok text) :
    ∃ written, titleText? text = some written ∧ '<' ∉ written ∧ '>' ∉ written ∧
      (∀ rest, '&' :: rest <:+ written → ∃ e ∈ entities, e <+: '&' :: rest) ∧
      unescape written = title.toList ∧
      ∀ {canvas' : Canvas} {title' : String} {paths' : List (Path Float)} {bounds' : Bounds Float}
        {text' : List Char}, title'.isEmpty = false →
        document canvas' (some title') paths' bounds' = .ok text' →
        titleText? text' = some written → title' = title := by
  have hwritten {canvas : Canvas} {title : String} {paths : List (Path Float)} {bounds : Bounds Float}
      {text : List Char} (htitle : title.isEmpty = false)
      (h : document canvas (some title) paths bounds = .ok text) :
      titleText? text = some (escapeTitle title.toList) := by
    obtain ⟨-, placed, places, -, -, rfl⟩ := document_eq_ok_iff.mp h
    exact titleText?_lines canvas places htitle placed
  refine ⟨escapeTitle title.toList, hwritten htitle h, notMem_escapeTitle (.inl rfl) _,
    notMem_escapeTitle (.inr rfl) _, fun _ => exists_entity_of_suffix, unescape_escapeTitle _, ?_⟩
  intro canvas' title' paths' bounds' text' htitle' h' hsame
  have halike := Option.some.inj ((hwritten htitle' h').symm.trans hsame)
  rw [← String.toList_inj, ← unescape_escapeTitle title'.toList, halike, unescape_escapeTitle]

theorem document_title_escaped :
    ∃ text, document ⟨⟨100, 50, 10, true⟩, 2, {}, some "#fff"⟩ (some "&amp;lt; <b>") [[(0, 0), (1, 2)]]
        ⟨0, 1, 0, 2⟩ = .ok text ∧
      ∃ written, titleText? text = some written ∧ written = "&amp;amp;lt; &lt;b&gt;".toList ∧
        unescape written = "&amp;lt; <b>".toList := by
  have hdocument : (document ⟨⟨100, 50, 10, true⟩, 2, {}, some "#fff"⟩ (some "&amp;lt; <b>")
      [[(0, 0), (1, 2)]] ⟨0, 1, 0, 2⟩).toOption.bind titleText? =
        some "&amp;amp;lt; &lt;b&gt;".toList := by
    decide +kernel
  obtain ⟨text, htext, hread⟩ := Option.bind_eq_some_iff.mp hdocument
  have hok := Except.toOption_eq_some_iff.mp htext
  obtain ⟨written, hwritten, -, -, -, hdecoded, -⟩ := document_title rfl hok
  exact ⟨text, hok, written, hwritten, Option.some.inj (hwritten.symm.trans hread), hdecoded⟩

end Titled

end Lindenmayer.Svg
