import Lindenmayer.Proofs.CommandLine.Effects
import Lindenmayer.Proofs.Grammar.Balance
import Lindenmayer.Proofs.Svg.Numerals
import Lindenmayer.Proofs.Turtle.Angle

/-! The numbers in a file that is drawn. They are numerals unless a measure of the canvas is none, the
turtle lost its way, or its box is stretched beyond all doubles. -/

namespace Lindenmayer.CommandLine

open Svg (Numerals layout textOfLines)

namespace Invocation

/-- What a command draws: a configuration, with a limit for its word. -/
def drawn? (t : Files.Tree) : Invocation → Option (Config × Option ℤ)
  | .render config _ iterations limit =>
    (loadConfig config (t.read config)).toOption.map fun c => (c.withIterations iterations, limit)
  | .preset name _ iterations width height limit =>
    (presetConfig name width height).toOption.map fun c => (c.withIterations iterations, limit)
  | .presets | .expand .. | .validate _ => none

lemma drawn?_of_reply {i : Invocation} {t : Files.Tree} {name : String} {text : Option (List Char)}
    (h : i.reply (i.sourceIn t) = .write name text) :
    ∃ c limit, i.drawn? t = some (c, limit) ∧ renderDocument c limit = .ok text := by
  have hconfig {x : Except Failure Config} {iterations limit : Option ℤ} {output : Option String}
      (h : replyOf (x.map fun c => renderConfig (c.withIterations iterations) output limit) =
        .write name text) :
      ∃ c limit', (x.toOption.map fun c => (c.withIterations iterations, limit)) =
        some (c, limit') ∧ renderDocument c limit' = .ok text := by
    rcases replyOf_eq_iff.mp h with h | ⟨e, -, he⟩
    · obtain ⟨c, rfl, hc⟩ := Except.map_eq_ok_iff.mp h
      cases renderConfig_eq_iff.mp hc with
      | wrote _ htext _ => exact ⟨_, limit, rfl, htext⟩
    · cases he
  cases i with
  | render | preset => exact hconfig h
  | presets | expand | validate => cases (reply_eq_write h).1

end Invocation

/-- A command that draws and returns zero has written a layout with a word for each number. All of them are
numerals just if all measures are finite, the turtle came to numbers, and the far corner of its box is
placed at one; and at a finite angle the turtle does. -/
theorem run_numerals {args : List String} {i : Invocation} {t u : Files.Tree} {o : Outcome}
    (hargs : Invocation.ofArguments args = .ok i) (hdraws : i.draws = true)
    (hrun : run args t = .ok (o, u)) (hexit : o.exit = .code 0) :
    ∃ (c : Config) (limit : ℤ) (d : Drawing Float) (places : ℕ) (placed : List (Path Float))
      (name : String) (n : Numerals),
      i.drawn? t = some (c, some limit) ∧ c.grammar.curve none (some limit) = .ok d ∧
      c.canvas.precision = places ∧ c.canvas.surface.fit d.paths d.bounds = some placed ∧
      isWritable c = true ∧ n = .ofCanvas (c.canvas.map Text.toString) places placed ∧
      i.output? = some name ∧ u.read name = .ok (Text.Utf8.encode
        (textOfLines (layout (c.canvas.map Text.toString) (some c.name.toString) n))) ∧
      (∀ w ∈ n.words, Decimal.IsNumeral w ∨ w ∈ Decimal.notNumerals) ∧
      ((∀ w ∈ n.words, Decimal.IsNumeral w) ↔
        c.canvas.surface.width.isFinite = true ∧ c.canvas.surface.height.isFinite = true ∧
        c.canvas.style.strokeWidth.isFinite = true ∧ (∀ p ∈ d.points, p.IsNumber) ∧
        (c.canvas.surface.farCorner d.bounds).IsFinite) ∧
      (c.grammar.angle.isFinite = true → ∀ p ∈ d.points, p.IsNumber) := by
  obtain ⟨i', hargs', hran⟩ := run_eq_ok_iff.mp hrun
  obtain rfl := Except.ok.inj (hargs.symm.trans hargs')
  cases hran with
  | done hreply =>
    obtain rfl := Exit.code.inj hexit
    exact absurd hreply (Invocation.reply_ne_done_zero hdraws _ _ _)
  | failed => exact absurd hexit (Outcome.ofFailure_exit_ne_zero _ _)
  | @wrote name text e _ hreply hwrite =>
    obtain ⟨hencoded, rfl⟩ := Outcome.exit_ofWrite_eq_zero_iff.mp hexit
    obtain ⟨s, rfl⟩ := Option.isSome_iff_exists.mp hencoded
    obtain ⟨c, limit, hdrawn, htext⟩ := Invocation.drawn?_of_reply hreply
    obtain ⟨l, d, document, rfl, hcurve, hdocument, hs⟩ := renderDocument_eq_ok_iff.mp htext
    obtain ⟨hwritable, rfl⟩ : isWritable c = true ∧ s = document := by
      split at hs
      · next hwritable => exact ⟨hwritable, Option.some.inj hs⟩
      · cases hs
    obtain ⟨hpaths, placed, places, hfit, hplaces, rfl⟩ := Svg.document_eq_ok_iff.mp hdocument
    obtain ⟨w, -, htrace⟩ := Grammar.curve_eq_ok_iff.mp hcurve
    refine ⟨c, l, d, places, placed, name, _, hdrawn, hcurve, Decimal.placesOf_eq_ok hplaces, hfit,
      hwritable, rfl, (Invocation.reply_eq_write hreply).1, ?_,
      fun _ => Numerals.isNumeral_or_of_mem_words, Svg.forall_isNumeral_iff htrace hpaths hfit,
      fun hangle => isNumber_of_trace hangle htrace⟩
    rw [Svg.layout_ofCanvas]
    exact (Files.Tree.wrote_of_write hwrite).read

def cornerTree : Files.Tree :=
  filesOf [("c.json", "\x7b\"seed\":\"f+f\",\"iterations\":1\x7d")]

theorem run_numerals_corner :
    ∃ o u canvas title n, run ["render", "c.json", "o.svg"] cornerTree = .ok (o, u) ∧
      o.exit = .code 0 ∧
      u.read "o.svg" = .ok (Text.Utf8.encode (textOfLines (layout canvas (some title) n))) ∧
      ∀ w ∈ n.words, Decimal.IsNumeral w := by
  have hseen : seen ["render", "c.json", "o.svg"] cornerTree = some ("", "", some 0) := by
    decide +kernel
  obtain ⟨exit, u, hrun, hexit⟩ := run_of_seen hseen
  have hzero := (hexit 0).mpr rfl
  obtain ⟨c, limit, d, places, placed, name, n, hdrawn, hcurve, -, -, -, -, houtput, hread, -,
    hiff, hnumbers⟩ :=
    run_numerals (i := .render "c.json" (some "o.svg") none (some defaultLimit)) rfl rfl hrun hzero
  obtain rfl := Option.some.inj houtput
  have hfinite : ((Invocation.render "c.json" (some "o.svg") none (some defaultLimit)).drawn?
      cornerTree).all (fun x => x.1.canvas.surface.width.isFinite &&
        x.1.canvas.surface.height.isFinite && x.1.canvas.style.strokeWidth.isFinite &&
        x.1.grammar.angle.isFinite && (x.1.grammar.curve none x.2).toOption.all fun d =>
          (x.1.canvas.surface.farCorner d.bounds).1.isFinite &&
          (x.1.canvas.surface.farCorner d.bounds).2.isFinite) = true := by
    decide +kernel
  rw [hdrawn, Option.all_some, hcurve] at hfinite
  simp only [Except.toOption, Option.all_some, Bool.and_eq_true] at hfinite
  obtain ⟨⟨⟨⟨hwidth, hheight⟩, hstroke⟩, hangle⟩, hfarX, hfarY⟩ := hfinite
  exact ⟨_, u, c.canvas.map Text.toString, c.name.toString, n, hrun, hzero, hread,
    hiff.mpr ⟨hwidth, hheight, hstroke, hnumbers hangle, hfarX, hfarY⟩⟩

/-- A box of almost no height is stretched beyond all doubles. -/
def slightTree : Files.Tree :=
  filesOf [("c.json", "\x7b\"seed\":\"+f\",\"angle\":1e-320,\"iterations\":1\x7d")]

def slightNumerals : Numerals where
  width := "800".toList
  height := "600".toList
  strokeWidth := "1".toList
  points := [[("10".toList, "inf".toList), ("10".toList, "inf".toList),
    ("790".toList, "nan".toList)]]

theorem run_render_slight :
    (∃ o u, run ["render", "c.json", "o.svg"] slightTree = .ok (o, u) ∧ o.exit = .code 0 ∧
      u.read "o.svg" = .ok (Text.Utf8.encode (textOfLines
        (layout ⟨⟨800, 600, 10, true⟩, 3, {}, none⟩ (some "L-System") slightNumerals)))) ∧
    ¬ ∀ w ∈ slightNumerals.words, Decimal.IsNumeral w := by
  constructor
  · have hseen : seen ["render", "c.json", "o.svg"] slightTree = some ("", "", some 0) := by
      decide +kernel
    have hwritten : (run ["render", "c.json", "o.svg"] slightTree).toOption.bind
        (fun x => (x.2.read "o.svg").toOption) = some (Text.Utf8.encode (textOfLines
          (layout ⟨⟨800, 600, 10, true⟩, 3, {}, none⟩ (some "L-System") slightNumerals))) := by
      decide +kernel
    obtain ⟨exit, u, hrun, hexit⟩ := run_of_seen hseen
    rw [hrun] at hwritten
    exact ⟨_, u, hrun, (hexit 0).mpr rfl, Except.toOption_eq_some_iff.mp hwritten⟩
  · decide +kernel

end Lindenmayer.CommandLine
