import Lindenmayer.Proofs.CommandLine.Encoding
import Lindenmayer.Proofs.CommandLine.Names
import Lindenmayer.Proofs.Files.Writing
import Lindenmayer.Proofs.Grammar.Balance

/-! What is validated and what is rendered. Both commands look at one word and its curve; a render wants
room inside the margins besides, and writes the texts of the canvas, where a validation prints the rules. -/

namespace Lindenmayer

/-- The word and the curve of a configuration, when they are within the limit and something is drawn. -/
structure Config.Draws (c : Config) (w : Word) (d : Drawing Float) : Prop where
  expand : c.grammar.expand none (some defaultLimit) = .ok w
  trace : trace w.commands c.grammar.angle = .ok d
  paths : d.paths ≠ []

lemma Config.Draws.unique {c : Config} {w w' : Word} {d d' : Drawing Float} (h : c.Draws w d)
    (h' : c.Draws w' d') : w' = w ∧ d' = d := by
  obtain rfl := Except.ok.inj (h'.expand.symm.trans h.expand)
  exact ⟨rfl, Except.ok.inj (h'.trace.symm.trans h.trace)⟩

namespace CommandLine

lemma validateConfig_eq_done_iff {c : Config} {stdout stderr : String} {code : ℕ} :
    validateConfig c = .done stdout stderr code ↔
      Printable c ∧ (∃ w d, c.Draws w d ∧ stdout = validation c w d) ∧ stderr = "" ∧ code = 0 := by
  rw [validateConfig_eq_iff]
  constructor
  · intro h
    cases h with
    | done hprintable hw hd hpaths =>
      exact ⟨hprintable, ⟨_, _, ⟨expandConfig_eq_ok_iff.mp hw, hd, hpaths⟩, rfl⟩, rfl, rfl⟩
  · rintro ⟨hprintable, ⟨w, d, hdraws, rfl⟩, rfl, rfl⟩
    exact .done hprintable (expandConfig_eq_ok_iff.mpr hdraws.expand) hdraws.trace hdraws.paths

/-- The lines of a render, one of which is a polyline for each path of the curve. -/
def rendering (c : Config) (places : ℕ) (d : Drawing Float) : List Svg.Line :=
  let s := c.canvas.surface
  let factor := d.bounds.scale s.innerWidth s.innerHeight
  Svg.lines (c.canvas.map Text.toString) places (some c.name.toString)
    (d.paths.map fun path => path.map (s.place d.bounds factor))

lemma countP_isPolyline_rendering (c : Config) (places : ℕ) (d : Drawing Float) :
    (rendering c places d).countP Svg.isPolyline = d.paths.length := by
  rw [rendering, Svg.countP_isPolyline_lines, List.length_map]

lemma renderDocument_eq_ok_iff_draws {c : Config} {text : Option (List Char)} :
    renderDocument c (some defaultLimit) = .ok text ↔
      ∃ w d places, c.Draws w d ∧ c.canvas.surface.hasRoom = true ∧
        Decimal.placesOf c.canvas.precision = .ok places ∧
        text = if isWritable c then some (Svg.textOfLines (rendering c places d)) else none := by
  rw [renderDocument_eq_ok_iff]
  constructor
  · rintro ⟨l, d, document, hl, hcurve, hdocument, rfl⟩
    obtain rfl := Option.some.inj hl
    obtain ⟨w, hexpand, htrace⟩ := Grammar.curve_eq_ok_iff.mp hcurve
    obtain ⟨hpaths, placed, places, hfit, hplaces, rfl⟩ := Svg.document_eq_ok_iff.mp hdocument
    obtain ⟨hroom, rfl⟩ := Surface.fit_eq_some_iff.mp hfit
    exact ⟨w, d, places, ⟨hexpand, htrace, hpaths⟩, hroom, hplaces, rfl⟩
  · rintro ⟨w, d, places, hdraws, hroom, hplaces, rfl⟩
    exact ⟨_, d, _, rfl, Grammar.curve_eq_ok_iff.mpr ⟨w, hdraws.expand, hdraws.trace⟩,
      Svg.document_eq_ok_iff.mpr ⟨hdraws.paths, _, places,
        Surface.fit_eq_some_iff.mpr ⟨hroom, rfl⟩, hplaces, rfl⟩, rfl⟩

lemma exists_renderDocument_eq_some_iff {c : Config}
    (hplaces : ∃ places, Decimal.placesOf c.canvas.precision = .ok places) :
    (∃ s, renderDocument c (some defaultLimit) = .ok (some s)) ↔
      isWritable c = true ∧ c.canvas.surface.hasRoom = true ∧ ∃ w d, c.Draws w d := by
  constructor
  · rintro ⟨s, hs⟩
    obtain ⟨w, d, _, hdraws, hroom, -, htext⟩ := renderDocument_eq_ok_iff_draws.mp hs
    split at htext
    · next hwritable => exact ⟨hwritable, hroom, w, d, hdraws⟩
    · cases htext
  · rintro ⟨hwritable, hroom, w, d, hdraws⟩
    obtain ⟨places, hplaces⟩ := hplaces
    exact ⟨_, renderDocument_eq_ok_iff_draws.mpr
      ⟨w, d, places, hdraws, hroom, hplaces, (if_pos hwritable).symm⟩⟩

lemma renderDocument_eq_noRoom {c : Config} {w : Word} {d : Drawing Float} (hdraws : c.Draws w d)
    (hroom : c.canvas.surface.hasRoom = false) :
    renderDocument c (some defaultLimit) = .error (.svg .noRoom) := by
  refine renderDocument_eq_error_iff.mpr (.inr ⟨d, .noRoom,
    Grammar.curve_eq_ok_iff.mpr ⟨w, hdraws.expand, hdraws.trace⟩, ?_, rfl⟩)
  have hfit : (c.canvas.map Text.toString).surface.fit d.paths d.bounds = none :=
    Surface.fit_eq_none_iff.mpr hroom
  simp [documentOf, Svg.document, hdraws.paths, hfit]

section Runs

variable {t : Files.Tree} {config : String} {bytes : List UInt8} {c : Config}

lemma run_validate (hconfig : IsName config) (hload : loadConfig config (t.read config) = .ok c) :
    ∃ v, run ["validate", config] t = .ok (v, t) ∧
      (v.exit = .code 0 ↔ Printable c ∧ ∃ w d, c.Draws w d) ∧
      (¬ Printable c → v.exit = .escaped .unencodable) ∧
      ∀ w d, Printable c → c.Draws w d → v.stdout = validation c w d := by
  have hreply : (Invocation.validate config).reply ((Invocation.validate config).sourceIn t) =
      validateConfig c := Invocation.reply_validate hload
  have hrun {v : Outcome} (h : (Invocation.validate config).Ran t v t) :
      run ["validate", config] t = .ok (v, t) :=
    run_eq_ok_iff.mpr ⟨_, ofArguments_validate hconfig, h⟩
  cases hvalidate : validateConfig c with
  | done stdout stderr code =>
    obtain ⟨hprintable, ⟨w, d, hdraws, rfl⟩, rfl, rfl⟩ := validateConfig_eq_done_iff.mp hvalidate
    refine ⟨_, hrun (.done (hreply.trans hvalidate)), iff_of_true rfl ⟨hprintable, w, d, hdraws⟩,
      fun hnot => absurd hprintable hnot, fun w' d' _ hdraws' => ?_⟩
    obtain ⟨rfl, rfl⟩ := hdraws.unique hdraws'
    rfl
  | failed stdout e =>
    have hnone (w : Word) (d : Drawing Float) (hprintable : Printable c) : ¬ c.Draws w d := fun h =>
      nomatch hvalidate.symm.trans
        (validateConfig_eq_done_iff.mpr ⟨hprintable, ⟨w, d, h, rfl⟩, rfl, rfl⟩)
    refine ⟨_, hrun (.failed (hreply.trans hvalidate)), ?zero, fun hnot => ?half,
      fun w d hprintable h => absurd h (hnone w d hprintable)⟩
    case zero =>
      exact iff_of_false (Outcome.ofFailure_exit_ne_zero _ _)
        fun ⟨hprintable, w, d, h⟩ => hnone w d hprintable h
    case half =>
      have hfailed := validateConfig_eq_iff.mpr (.unencodable hnot)
      obtain ⟨-, rfl⟩ := Reply.failed.inj (hvalidate.symm.trans hfailed)
      rfl
  | write name text => exact absurd hvalidate (validateConfig_ne_write c name text)

/-- What an expansion prints of its word. -/
def wordOutcome (w : Word) : Outcome :=
  if Text.isWhole w then ⟨Text.toString w ++ "\n", "", .code 0⟩ else ⟨"", "", .escaped .unencodable⟩

lemma run_expand (hconfig : IsName config) (hload : loadConfig config (t.read config) = .ok c)
    {w : Word} (hw : c.grammar.expand none (some defaultLimit) = .ok w) :
    run ["expand", config] t = .ok (wordOutcome w, t) := by
  have hreply : (Invocation.expand config none).reply ((Invocation.expand config none).sourceIn t) =
      wordReply w := by
    refine (Invocation.reply_expand hload none).trans (replyOf_eq_iff.mpr (.inl ?_))
    exact Except.map_eq_ok_iff.mpr ⟨w, expandConfig_eq_ok_iff.mpr hw, rfl⟩
  refine run_eq_ok_iff.mpr ⟨_, ofArguments_expand hconfig, ?_⟩
  unfold wordReply at hreply
  unfold wordOutcome
  split at hreply
  · next hwhole =>
    rw [if_pos hwhole]
    exact .done hreply
  · next hwhole =>
    rw [if_neg hwhole]
    exact .failed hreply

lemma run_render (hconfig : IsName config) {output : String} (houtput : IsName output)
    (hload : loadConfig config (t.read config) = .ok c) (hiterations : 1 ≤ c.iterations)
    (hcreatable : t.Creatable output) :
    ∃ r u, run ["render", config, output] t = .ok (r, u) ∧
      (r.exit = .code 0 ↔ ∃ s, renderDocument c (some defaultLimit) = .ok (some s)) ∧
      (∀ e, renderDocument c (some defaultLimit) = .error e → r = .ofFailure "" e) ∧
      ∀ text, renderDocument c (some defaultLimit) = .ok text →
        r = .ofWrite text.isSome none ∧ u.read output = .ok (Text.Utf8.encode (text.getD [])) := by
  have hreply : (Invocation.render config (some output) none (some defaultLimit)).reply
      ((Invocation.render config (some output) none (some defaultLimit)).sourceIn t) =
      renderConfig c (some output) (some defaultLimit) :=
    Invocation.reply_render hload (some output) none (some defaultLimit)
  have hrun {r : Outcome} {u : Files.Tree}
      (h : (Invocation.render config (some output) none (some defaultLimit)).Ran t r u) :
      run ["render", config, output] t = .ok (r, u) :=
    run_eq_ok_iff.mpr ⟨_, ofArguments_render hconfig houtput, h⟩
  have hpos : 0 < c.iterations := hiterations
  cases hdocument : renderDocument c (some defaultLimit) with
  | error e =>
    have hfailed : renderConfig c (some output) (some defaultLimit) = .failed "" e :=
      renderConfig_eq_iff.mpr (.failed hpos hdocument)
    refine ⟨_, t, hrun (.failed (hreply.trans hfailed)), ?_, fun e' he => ?_,
      fun _ htext => nomatch htext⟩
    · exact iff_of_false (Outcome.ofFailure_exit_ne_zero _ _) (by simp)
    · exact congrArg _ (Except.error.inj he)
  | ok text =>
    have hwrite : renderConfig c (some output) (some defaultLimit) = .write output text :=
      renderConfig_eq_iff.mpr (.wrote hpos hdocument rfl)
    obtain ⟨u, hu⟩ := hcreatable.write (Text.Utf8.encode (text.getD []))
    refine ⟨_, u, hrun (.wrote (hreply.trans hwrite) hu), ?_, fun _ he => (nomatch he),
      fun text' htext => ?_⟩
    · simp [Outcome.exit_ofWrite_eq_zero_iff, Option.isSome_iff_exists]
    · obtain rfl := Except.ok.inj htext
      exact ⟨rfl, (Files.Tree.wrote_of_write hu).read⟩

/-- A configuration is rendered if and only if it is validated, but for what only one of the commands looks
at: a render wants room inside the margins and an encoding of the texts of the canvas, and a validation one
of the rules. The paths that were counted are then the polylines, and the symbols are those of the word
that is expanded. -/
theorem run_render_iff_run_validate {output : String} (hconfig : IsName config)
    (houtput : IsName output) (hread : t.read config = .ok bytes)
    (hc : Config.ofBytes config bytes = .ok c) (hiterations : 1 ≤ c.iterations)
    (hcreatable : t.Creatable output) :
    ∃ v r u, run ["validate", config] t = .ok (v, t) ∧
      run ["render", config, output] t = .ok (r, u) ∧
      (r.exit = .code 0 ∧ c.grammar.rules.IsWhole ↔
        v.exit = .code 0 ∧ c.canvas.surface.hasRoom = true ∧ c.canvas.IsWhole) ∧
      (r.exit = .code 0 → c.canvas.surface.hasRoom = true ∧ c.canvas.IsWhole) ∧
      (v.exit = .code 0 → c.grammar.rules.IsWhole) ∧
      (v.exit = .code 0 → c.canvas.surface.hasRoom = false →
        r = ⟨"", "Config error: svg.margin leaves no room to draw\n", .code 2⟩) ∧
      (v.exit = .code 0 → c.canvas.surface.hasRoom = true → ¬ c.canvas.IsWhole →
        r.exit = .escaped .unencodable ∧ u.read output = .ok []) ∧
      (r.exit = .code 0 → ¬ c.grammar.rules.IsWhole → v.exit = .escaped .unencodable) ∧
      (r.exit = .code 0 → ∃ w ls rest,
        run ["expand", config] t = .ok (wordOutcome w, t) ∧
        (c.grammar.rules.IsWhole → v.stdout = printed (summaryLines c) ++
          unlines (s!"symbols: {w.length}" :: s!"paths: {ls.countP Svg.isPolyline}" :: rest)) ∧
        u.read output = .ok (Text.Utf8.encode (Svg.textOfLines ls)) ∧
        (Svg.InlineTexts (c.canvas.map Text.toString) →
          (Text.lines (Svg.textOfLines ls)).countP Svg.isPolyline = ls.countP Svg.isPolyline)) := by
  have hload : loadConfig config (t.read config) = .ok c :=
    loadConfig_eq_ok_iff.mpr ⟨bytes, hread, hc⟩
  obtain ⟨places, hplaces⟩ := (Config.ofBytes_inRange hc).placesOf
  obtain ⟨v, hvalidate, hv, hunprintable, hprinted⟩ := run_validate hconfig hload
  obtain ⟨r, u, hrender, hr, hfailed, hwritten⟩ :=
    run_render hconfig houtput hload hiterations hcreatable
  rw [printable_iff] at hv
  rw [exists_renderDocument_eq_some_iff ⟨places, hplaces⟩, isWritable_iff] at hr
  refine ⟨v, r, u, hvalidate, hrender, ?same, fun hzero => ?_, fun hzero => ?_,
    fun hzero hroom => ?noRoom, fun hzero hroom hhalf => ?half, fun hzero hhalf => ?rules,
    fun hzero => ?rendered⟩
  case same =>
    rw [hr, hv]
    constructor
    · rintro ⟨⟨⟨hname, hcanvas⟩, hroom, hdraws⟩, hrules⟩
      exact ⟨⟨⟨hname, hrules⟩, hdraws⟩, hroom, hcanvas⟩
    · rintro ⟨⟨⟨hname, hrules⟩, hdraws⟩, hroom, hcanvas⟩
      exact ⟨⟨⟨hname, hcanvas⟩, hroom, hdraws⟩, hrules⟩
  · exact ⟨(hr.mp hzero).2.1, (hr.mp hzero).1.2⟩
  · exact (hv.mp hzero).1.2
  case noRoom =>
    obtain ⟨-, w, d, hdraws⟩ := hv.mp hzero
    exact hfailed _ (renderDocument_eq_noRoom hdraws hroom)
  case half =>
    obtain ⟨-, w, d, hdraws⟩ := hv.mp hzero
    have hdocument := renderDocument_eq_ok_iff_draws.mpr ⟨w, d, places, hdraws, hroom, hplaces, rfl⟩
    rw [if_neg fun hwritable => hhalf (isWritable_iff.mp hwritable).2] at hdocument
    obtain ⟨rfl, hempty⟩ := hwritten _ hdocument
    exact ⟨rfl, hempty⟩
  case rules =>
    exact hunprintable fun hprintable => hhalf (printable_iff.mp hprintable).2
  case rendered =>
    obtain ⟨hwritable, hroom, w, d, hdraws⟩ := hr.mp hzero
    have hdocument := renderDocument_eq_ok_iff_draws.mpr ⟨w, d, places, hdraws, hroom, hplaces, rfl⟩
    rw [if_pos (isWritable_iff.mpr hwritable)] at hdocument
    refine ⟨w, rendering c places d, (drawingLines w.length d).drop 2,
      run_expand hconfig hload hdraws.expand, fun hrules => ?_, (hwritten _ hdocument).2,
      fun hinline => ?_⟩
    · rw [hprinted w d (printable_iff.mpr ⟨hwritable.1, hrules⟩) hdraws,
        countP_isPolyline_rendering]
      rfl
    · rw [List.countP_eq_length_filter, List.countP_eq_length_filter, rendering,
        hinline.filter_isPolyline]

end Runs

/-- One line, in a canvas with the margins that are the default, in one that is all margin, and in one
whose background has no encoding. -/
def marginTree : Files.Tree :=
  filesOf [("line.json", "\x7b\"seed\":\"f\",\"iterations\":1\x7d"),
    ("wide.json", "\x7b\"seed\":\"f\",\"iterations\":1,\"svg\":\x7b\"margin\":500\x7d\x7d"),
    ("half.json", "\x7b\"seed\":\"f\",\"iterations\":1,\"svg\":" ++
      "\x7b\"background\":\"\\ud800\"\x7d\x7d")]

def readable (config : String) (t : Files.Tree) : Bool :=
  match t.read config with
  | .error _ => false
  | .ok bytes =>
    match Config.ofBytes config bytes with
    | .error _ => false
    | .ok c => decide (1 ≤ c.iterations)

lemma config_of_readable {config : String} {t : Files.Tree} (h : readable config t = true) :
    ∃ bytes c, t.read config = .ok bytes ∧ Config.ofBytes config bytes = .ok c ∧
      1 ≤ c.iterations := by
  unfold readable at h
  split at h
  · cases h
  · next bytes hread =>
    split at h
    · cases h
    · next c hc => exact ⟨bytes, c, hread, hc, of_decide_eq_true h⟩

lemma marginTree_creatable : marginTree.Creatable "o.svg" := ⟨[], by decide +kernel⟩

def lineSummary (margin : String) : String :=
  unlines ["name: L-System", "seed length: 1", "iterations: 1", "rules: 0", "angle: 90",
    "svg: 800x600 margin=" ++ margin ++ " precision=3 flip_y=True", "symbols: 1", "paths: 1",
    "bounds: x=[0, 1] y=[0, 0]"]

theorem run_render_line : ∃ c r u w ls rest,
    run ["validate", "line.json"] marginTree = .ok (⟨lineSummary "10", "", .code 0⟩, marginTree) ∧
    run ["render", "line.json", "o.svg"] marginTree = .ok (r, u) ∧ r.exit = .code 0 ∧
    run ["expand", "line.json"] marginTree = .ok (wordOutcome w, marginTree) ∧
    lineSummary "10" = printed (summaryLines c) ++
      unlines (s!"symbols: {w.length}" :: s!"paths: {ls.countP Svg.isPolyline}" :: rest) ∧
    u.read "o.svg" = .ok (Text.Utf8.encode (Svg.textOfLines ls)) := by
  have hvalidate : seen ["validate", "line.json"] marginTree =
      some (lineSummary "10", "", some 0) := by decide +kernel
  have hrender : seen ["render", "line.json", "o.svg"] marginTree = some ("", "", some 0) := by
    decide +kernel
  have hreadable : readable "line.json" marginTree = true := by decide +kernel
  obtain ⟨bytes, c, hread, hc, hiterations⟩ := config_of_readable hreadable
  obtain ⟨v, r, u, hv, hr, -, -, hrules, -, -, -, hrendered⟩ := run_render_iff_run_validate
    (isName_of_not_dashed (by simp)) (isName_of_not_dashed (by simp)) hread hc hiterations
    marginTree_creatable
  obtain ⟨exit, t', hv', hexit⟩ := run_of_seen hvalidate
  obtain ⟨rfl, rfl⟩ := Prod.mk.inj (Except.ok.inj (hv.symm.trans hv'))
  obtain rfl := (hexit 0).mpr rfl
  obtain ⟨exit, u', hr', hexit⟩ := run_of_seen hrender
  obtain ⟨rfl, rfl⟩ := Prod.mk.inj (Except.ok.inj (hr.symm.trans hr'))
  have hzero := (hexit 0).mpr rfl
  obtain ⟨w, ls, rest, hexpand, hprinted, hwritten, -⟩ := hrendered hzero
  exact ⟨c, _, u, w, ls, rest, hv, hr, hzero, hexpand, hprinted (hrules rfl), hwritten⟩

theorem run_validate_wide :
    (∀ config ∈ ["wide.json", "half.json"], ∃ bytes c, marginTree.read config = .ok bytes ∧
      Config.ofBytes config bytes = .ok c ∧ 1 ≤ c.iterations) ∧
    marginTree.Creatable "o.svg" ∧
    (∀ config ∈ ["wide.json", "half.json"],
      ∃ v u, run ["validate", config] marginTree = .ok (v, u) ∧ v.exit = .code 0) ∧
    (∃ r u, run ["render", "wide.json", "o.svg"] marginTree = .ok (r, u) ∧ r.exit = .code 2) ∧
    ∃ r u e, run ["render", "half.json", "o.svg"] marginTree = .ok (r, u) ∧ r.exit = .escaped e := by
  have hvalidate : seen ["validate", "wide.json"] marginTree =
      some (lineSummary "500", "", some 0) := by decide +kernel
  have hvalidate' : seen ["validate", "half.json"] marginTree =
      some (lineSummary "10", "", some 0) := by decide +kernel
  have hrender : seen ["render", "wide.json", "o.svg"] marginTree =
      some ("", "Config error: svg.margin leaves no room to draw\n", some 2) := by decide +kernel
  have hrender' : seen ["render", "half.json", "o.svg"] marginTree = some ("", "", none) := by
    decide +kernel
  have hzero {config stdout : String}
      (h : seen ["validate", config] marginTree = some (stdout, "", some 0)) :
      ∃ v u, run ["validate", config] marginTree = .ok (v, u) ∧ v.exit = .code 0 := by
    obtain ⟨exit, u, hrun, hexit⟩ := run_of_seen h
    exact ⟨_, u, hrun, (hexit 0).mpr rfl⟩
  refine ⟨?_, marginTree_creatable, ?_, ?_, ?_⟩
  · simp only [List.forall_mem_cons]
    exact ⟨config_of_readable (by decide +kernel), config_of_readable (by decide +kernel),
      fun _ hconfig => absurd hconfig List.not_mem_nil⟩
  · simp only [List.forall_mem_cons]
    exact ⟨hzero hvalidate, hzero hvalidate', fun _ hconfig => absurd hconfig List.not_mem_nil⟩
  · obtain ⟨exit, u, hrun, hexit⟩ := run_of_seen hrender
    exact ⟨_, u, hrun, (hexit 2).mpr rfl⟩
  · obtain ⟨exit, u, hrun, hexit⟩ := run_of_seen hrender'
    cases exit with
    | code n => exact nomatch (hexit n).mp rfl
    | escaped e => exact ⟨_, u, e, hrun, rfl⟩

end CommandLine

end Lindenmayer
