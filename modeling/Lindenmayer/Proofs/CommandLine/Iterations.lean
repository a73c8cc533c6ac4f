import Lindenmayer.Proofs.CommandLine.Effects
import Lindenmayer.Proofs.Config.Iterations
import Lindenmayer.Proofs.Files.Alike

/-! Counts of generations that are given as an option, and those that stand in a configuration. A run does
the same with both; and it does the same with a curve that is named as with a file that names it. -/

namespace Lindenmayer

namespace CommandLine

/-- A second file holds what the first does, with a count of generations set. -/
def SetsCount (n : Int) (t t' : Files.Tree) (config config' : String) : Prop :=
  ∃ v c v', 0 ≤ n ∧ t.Holds config v ∧ Config.ofJson v = .ok c ∧ t'.Holds config' v' ∧
    Config.Agree (v.setMember "iterations" (.int n)) v'

/-- Two invocations of which the second leaves to its configuration what the first says itself. -/
inductive Restates (t t' : Files.Tree) : Invocation → Invocation → Prop
  | render {config config' n} (output : Option String) (limit : Option Int) :
      SetsCount n t t' config config' →
      Restates t t' (.render config output (some n) limit) (.render config' output none limit)
  | expand {config config' n} : SetsCount n t t' config config' →
      Restates t t' (.expand config (some n)) (.expand config' none)
  | preset {config v width height w h} (key : String) (output : Option String)
      (limit : Option Int) : width.number? = some w → height.number? = some h →
      t'.Holds config v → Config.Agree (Config.sizedCurve key width height) v →
      Restates t t' (.preset key output none (some w) (some h) limit)
        (.render config output none limit)
  | presetCount {config v width height w h n} (key : String) (output : Option String)
      (limit : Option Int) : 0 ≤ n → width.number? = some w → height.number? = some h →
      t'.Holds config v →
      Config.Agree ((Config.sizedCurve key width height).setMember "iterations" (.int n)) v →
      Restates t t' (.preset key output (some n) (some w) (some h) limit)
        (.render config output none limit)

lemma loadConfig_of_holds {t : Files.Tree} {config : String} {v : Json} (h : t.Holds config v) :
    loadConfig config (t.read config) = (Config.ofJson v).mapError (.config ∘ .content) := by
  obtain ⟨bytes, text, hread, htext, hv⟩ := h
  simp only [loadConfig, hread, Config.ofBytes, htext, Config.ofText, hv]
  cases Config.ofJson v <;> rfl

lemma SetsCount.loadConfig {n : Int} {t t' : Files.Tree} {config config' : String}
    (h : SetsCount n t t' config config') : ∃ c, loadConfig config (t.read config) = .ok c ∧
      loadConfig config' (t'.read config') = .ok (c.withIterations (some n)) := by
  obtain ⟨v, c, v', hn, hv, hc, hv', hagree⟩ := h
  have hdocumented := Config.Documented.of_ofJson hc
  refine ⟨c, ?_, ?_⟩
  · rw [loadConfig_of_holds hv, hc]
    rfl
  · rw [loadConfig_of_holds hv', ← hagree.ofJson_eq,
      Config.ofJson_setIterations hdocumented.root hdocumented.grammar.iterations hn, hc]
    rfl

lemma presetConfig_eq {key : String} {width height : Json} {w h : Float}
    (hwidth : width.number? = some w) (hheight : height.number? = some h) :
    presetConfig key (some w) (some h) =
      (Config.ofJson (Config.sizedCurve key width height)).mapError (.config ∘ .content) := by
  rw [Config.ofJson_sizedCurve hwidth hheight]
  rfl

namespace Restates

variable {t t' : Files.Tree} {i i' : Invocation}

lemma output?_eq (h : Restates t t' i i') : i.output? = i'.output? := by
  cases h <;> rfl

lemma reply_eq (h : Restates t t' i i') :
    i.reply (i.sourceIn t) = i'.reply (i'.sourceIn t') := by
  cases h with
  | render output limit hcount =>
    obtain ⟨c, hload, hload'⟩ := hcount.loadConfig
    exact (Invocation.reply_render hload output _ limit).trans
      (Invocation.reply_render hload' output none limit).symm
  | expand hcount =>
    obtain ⟨c, hload, hload'⟩ := hcount.loadConfig
    exact (Invocation.reply_expand hload _).trans (Invocation.reply_expand hload' none).symm
  | preset key output limit hwidth hheight hv hagree =>
    simp only [Invocation.reply, Invocation.sourceIn, Invocation.source?, loadConfig_of_holds hv,
      presetConfig_eq hwidth hheight, hagree.ofJson_eq]
  | presetCount key output limit hn hwidth hheight hv hagree =>
    simp only [Invocation.reply, Invocation.sourceIn, Invocation.source?, loadConfig_of_holds hv,
      presetConfig_eq hwidth hheight, ← hagree.ofJson_eq,
      Config.ofJson_sizedCurve_setIterations key _ _ hn]
    cases Config.ofJson (Config.sizedCurve key _ _) <;> rfl

end Restates

namespace Invocation

lemma draws_of_output? {i : Invocation} {name : String} (h : i.output? = some name) :
    i.draws = true := by
  cases i with
  | render | preset => rfl
  | presets | expand | validate => cases h

/-- Runs that reply the same, and with trees that have the same places, end in the same way. -/
lemma run_inStep {i i' : Invocation} {t t' : Files.Tree} (ht : t.Alike t')
    (hreply : i.reply (i.sourceIn t) = i'.reply (i'.sourceIn t')) :
    ∃ o u u', i.run t = (o, u) ∧ i'.run t' = (o, u') ∧ Files.Tree.InStep t t' u u' ∧
      ∀ name, o.exit = .code 0 → i.output? = some name →
        ∃ content, u.read name = .ok content ∧ u'.read name = .ok content := by
  rw [run, run, ← hreply]
  cases hr : i.reply (i.sourceIn t) with
  | done stdout stderr n =>
    refine ⟨_, t, t', rfl, rfl, .refl ht, fun name hexit houtput => ?_⟩
    obtain rfl := Exit.code.inj hexit
    exact absurd hr (reply_ne_done_zero (draws_of_output? houtput) _ _ _)
  | failed stdout e =>
    exact ⟨_, t, t', rfl, rfl, .refl ht,
      fun name hexit => absurd hexit (Outcome.ofFailure_exit_ne_zero _ _)⟩
  | write name text =>
    obtain ⟨e, u, u', hu, hu', hstep⟩ :=
      Files.Tree.write_inStep ht name (Text.Utf8.encode (text.getD []))
    simp only [hu, hu']
    refine ⟨_, u, u', rfl, rfl, hstep, fun name' hexit houtput => ?_⟩
    obtain rfl := Option.some.inj ((reply_eq_write hr).1.symm.trans houtput)
    obtain ⟨-, rfl⟩ := Outcome.exit_ofWrite_eq_zero_iff.mp hexit
    exact ⟨_, (Files.Tree.wrote_of_write hu).read, (Files.Tree.wrote_of_write hu').read⟩

end Invocation

/-- A count of generations may be set in a configuration or by an option, and a curve of the catalog may
be named or be all of a configuration: what is printed, returned and written is the same. -/
theorem run_restated :
    (∀ v c n, 0 ≤ n → Config.ofJson v = .ok c →
      Config.ofJson (v.setMember "iterations" (.int n)) = .ok (c.withIterations (some n)) ∧
      (c.withIterations (some n)).iterations = n ∧
      c.withIterations (some n) =
        { c with grammar := { c.grammar with iterations := some n } }) ∧
    ∀ args args' i i' t t', Invocation.ofArguments args = .ok i →
      Invocation.ofArguments args' = .ok i' → t.Alike t' → Restates t t' i i' →
      ∃ o u u', run args t = .ok (o, u) ∧ run args' t' = .ok (o, u') ∧
        Files.Tree.InStep t t' u u' ∧ i.output? = i'.output? ∧
        ∀ name, o.exit = .code 0 → i.output? = some name →
          ∃ content, u.read name = .ok content ∧ u'.read name = .ok content := by
  refine ⟨fun v c n hn hc => ⟨?set, rfl, rfl⟩, fun args args' i i' t t' hi hi' ht h => ?run⟩
  case set =>
    have hdocumented := Config.Documented.of_ofJson hc
    rw [Config.ofJson_setIterations hdocumented.root hdocumented.grammar.iterations hn, hc]
    rfl
  case run =>
    obtain ⟨o, u, u', hu, hu', hstep, hcontent⟩ := Invocation.run_inStep ht h.reply_eq
    refine ⟨o, u, u', ?_, ?_, hstep, h.output?_eq, hcontent⟩
    · rw [run, hi, ← hu]
      rfl
    · rw [run, hi', ← hu']
      rfl

/-- A line twice, with two counts, and a curve of the catalog in a canvas. -/
def countTree : Files.Tree :=
  filesOf [("nine.json", "\x7b\"seed\":\"f\",\"iterations\":9,\"angle\":60\x7d"),
    ("two.json", "\x7b\"angle\":60,\"seed\":\"f\",\"iterations\":2\x7d"),
    ("koch.json", "\x7b\"preset\":\"koch\",\"svg\":\x7b\"width\":320,\"height\":200\x7d," ++
      "\"iterations\":1\x7d")]

def nineTimes : Json := .object [("seed", .string "f"), ("iterations", .int 9), ("angle", .int 60)]

def twice : Json := .object [("angle", .int 60), ("seed", .string "f"), ("iterations", .int 2)]

def kochOnce : Json :=
  (Config.sizedCurve "koch" (.int 320) (.int 200)).setMember "iterations" (.int 1)

lemma countTree_holds : countTree.Holds "nine.json" nineTimes ∧ countTree.Holds "two.json" twice ∧
    countTree.Holds "koch.json" kochOnce := by
  refine ⟨⟨_, _, rfl, rfl, ?_⟩, ⟨_, _, rfl, rfl, ?_⟩, ⟨_, _, rfl, rfl, ?_⟩⟩
  · decide +kernel
  · decide +kernel
  · decide +kernel

theorem run_restated_count :
    (∃ c, Config.ofJson nineTimes = .ok c ∧
      Config.ofJson (nineTimes.setMember "iterations" (.int 2)) = .ok (c.withIterations (some 2))) ∧
    (∃ o u u', run ["render", "nine.json", "o.svg", "--iterations", "2"] countTree = .ok (o, u) ∧
      run ["render", "two.json", "o.svg"] countTree = .ok (o, u') ∧ o.exit = .code 0 ∧
      ∃ content, u.read "o.svg" = .ok content ∧ u'.read "o.svg" = .ok content) ∧
    ∃ o u u', run ["preset", "koch", "o.svg", "--width", "320", "--height", "2e2",
        "--iterations", "1"] countTree = .ok (o, u) ∧
      run ["render", "koch.json", "o.svg"] countTree = .ok (o, u') ∧ o.exit = .code 0 ∧
      ∃ content, u.read "o.svg" = .ok content ∧ u'.read "o.svg" = .ok content := by
  obtain ⟨hnine, htwo, hkoch⟩ := countTree_holds
  have haccepted : (Config.ofJson nineTimes).toOption.isSome = true := by decide +kernel
  obtain ⟨c, hc⟩ := Option.isSome_iff_exists.mp haccepted
  have hok := Except.toOption_eq_some_iff.mp hc
  have hagree : Config.Agree (nineTimes.setMember "iterations" (.int 2)) twice :=
    ⟨by decide +kernel, by decide +kernel⟩
  refine ⟨⟨c, hok, (run_restated.1 nineTimes c 2 (by decide) hok).1⟩, ?render, ?preset⟩
  case render =>
    have hseen : seen ["render", "two.json", "o.svg"] countTree = some ("", "", some 0) := by
      decide +kernel
    obtain ⟨exit, u₀, hrun, hexit⟩ := run_of_seen hseen
    obtain ⟨o, u, u', hu, hu', -, -, hcontent⟩ :=
      run_restated.2 ["render", "nine.json", "o.svg", "--iterations", "2"]
        ["render", "two.json", "o.svg"] _ _ countTree countTree (by decide +kernel)
        (by decide +kernel) (.refl countTree)
        (.render (some "o.svg") (some defaultLimit)
          ⟨_, c, _, by decide, hnine, hok, htwo, hagree⟩)
    obtain ⟨rfl, -⟩ := Prod.mk.inj (Except.ok.inj (hrun.symm.trans hu'))
    have hzero := (hexit 0).mpr rfl
    exact ⟨_, u, u', hu, hu', hzero, hcontent "o.svg" hzero rfl⟩
  case preset =>
    have hseen : seen ["render", "koch.json", "o.svg"] countTree = some ("", "", some 0) := by
      decide +kernel
    obtain ⟨exit, u₀, hrun, hexit⟩ := run_of_seen hseen
    obtain ⟨o, u, u', hu, hu', -, -, hcontent⟩ :=
      run_restated.2 ["preset", "koch", "o.svg", "--width", "320", "--height", "2e2",
          "--iterations", "1"]
        ["render", "koch.json", "o.svg"] _ _ countTree countTree (by decide +kernel)
        (by decide +kernel) (.refl countTree)
        (.presetCount (w := 320) (h := 200) "koch" (some "o.svg") (some defaultLimit) (by decide)
          (by decide +kernel) (by decide +kernel) hkoch ⟨fun _ _ => rfl, fun _ _ => rfl⟩)
    obtain ⟨rfl, -⟩ := Prod.mk.inj (Except.ok.inj (hrun.symm.trans hu'))
    have hzero := (hexit 0).mpr rfl
    exact ⟨_, u, u', hu, hu', hzero, hcontent "o.svg" hzero rfl⟩

end CommandLine

end Lindenmayer
