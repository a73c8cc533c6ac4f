import Lindenmayer.Proofs.CommandLine.Effects
import Lindenmayer.Proofs.CommandLine.Names
import Lindenmayer.Proofs.Config.Oversized
import Lindenmayer.Proofs.Files.NulFree
import Lindenmayer.Proofs.Grammar.Balance

/-! Which failures are reported. Of a configuration that is rendered, expanded or validated four things end
the program unreported: a whole number that no double is near to, one with too many digits to be read, a
step along an infinite heading, and a text without an encoding. -/

namespace Lindenmayer.CommandLine

/-- An end that is foreseen: all went well, there was nothing to render, or a failure is reported. -/
def Outcome.Foreseen (o : Outcome) : Prop :=
  o.exit = .code 0 ∨ o.exit = .code 1 ∧ o.Reports "Nothing rendered: " ∨
    o.exit = .code 2 ∧ (o.Reports "Config error: " ∨ o.Reports "Structure error: " ∨
      o.Reports "File error: ")

lemma Outcome.Foreseen.not_escaped {o : Outcome} (h : o.Foreseen) (e : Failure) :
    o.exit ≠ .escaped e := by
  rcases h with h | ⟨h, -⟩ | ⟨h, -⟩ <;> simp [h]

lemma Failure.heading?_cases (e : Failure) :
    e.heading? = none ∨ e.heading? = some "Config error" ∨ e.heading? = some "Structure error" ∨
      e.heading? = some "File error" := by
  unfold heading?
  split <;> simp

lemma Outcome.reports_ofFailure (stdout : String) {e : Failure} {heading : String}
    (h : e.heading? = some heading) :
    (Outcome.ofFailure stdout e).exit = .code 2 ∧
      (Outcome.ofFailure stdout e).Reports (heading ++ ": ") := by
  unfold Outcome.ofFailure
  rw [h]
  refine ⟨rfl, e.message.toList ++ "\n".toList, ?_⟩
  simp [String.toList_append]

lemma Outcome.foreseen_ofFailure {stdout : String} {e : Failure} (h : e.heading? ≠ none) :
    (Outcome.ofFailure stdout e).Foreseen := by
  rcases e.heading?_cases with hnone | hconfig | hstructure | hfile
  · exact absurd hnone h
  · have hreports := Outcome.reports_ofFailure stdout hconfig
    exact .inr (.inr ⟨hreports.1, .inl hreports.2⟩)
  · have hreports := Outcome.reports_ofFailure stdout hstructure
    exact .inr (.inr ⟨hreports.1, .inr (.inl hreports.2)⟩)
  · have hreports := Outcome.reports_ofFailure stdout hfile
    exact .inr (.inr ⟨hreports.1, .inr (.inr hreports.2)⟩)

/-- A reply that ends the program unreported, if its output can be made. -/
inductive Reply.Escapes (t : Files.Tree) : Reply → Failure → Prop
  | failed {stdout e} : e.heading? = none → Escapes t (.failed stdout e) e
  | write {output} : t.Creatable output → Escapes t (.write output none) .unencodable

lemma Reply.escapes_failed_iff {t : Files.Tree} {stdout : String} {e e' : Failure} :
    (Reply.failed stdout e).Escapes t e' ↔ e = e' ∧ e.heading? = none := by
  constructor
  · intro h
    cases h with
    | failed hnone => exact ⟨rfl, hnone⟩
  · rintro ⟨rfl, hnone⟩
    exact .failed hnone

section Config

variable {t : Files.Tree} {c : Config} {e : Failure}

lemma heading?_ofCurve_eq_none_iff {cause : CurveError} :
    (Failure.ofCurve cause).heading? = none ↔ ∃ k, cause = .walk (.noDirection k) := by
  cases cause with
  | expansion => simp [Failure.ofCurve, Failure.heading?]
  | walk cause => cases cause <;> simp [Failure.ofCurve, Failure.heading?]

lemma svg_document_error {canvas : Svg.Canvas} {title : Option String} {paths : List (Path Float)}
    {bounds : Bounds Float} {cause : Svg.Error}
    (hplaces : ∃ places, Decimal.placesOf canvas.precision = .ok places)
    (h : Svg.document canvas title paths bounds = .error cause) :
    cause = .noGeometry ∨ cause = .noRoom := by
  obtain ⟨places, hplaces⟩ := hplaces
  unfold Svg.document at h
  split at h
  · exact .inl (Except.error.inj h).symm
  · split at h
    · exact .inr (Except.error.inj h).symm
    · rw [hplaces] at h
      cases h

lemma renderConfig_escapes_iff {output : String} {limit : Int}
    (hplaces : ∃ places, Decimal.placesOf c.canvas.precision = .ok places) :
    (renderConfig c (some output) (some limit)).Escapes t e ↔ 0 < c.iterations ∧
      ((∃ k, c.grammar.curve none (some limit) = .error (.walk (.noDirection k)) ∧
        e = .walk (.noDirection k)) ∨
      renderDocument c (some limit) = .ok none ∧ t.Creatable output ∧ e = .unencodable) := by
  generalize hr : renderConfig c (some output) (some limit) = r
  constructor
  · intro h
    cases h with
    | failed hnone =>
      cases renderConfig_eq_iff.mp hr with
      | failed hpos hdocument =>
        refine ⟨hpos, .inl ?_⟩
        rcases renderDocument_eq_error_iff.mp hdocument with
          ⟨cause, hcurve, rfl⟩ | ⟨d, cause, -, hsvg, rfl⟩
        · obtain ⟨k, rfl⟩ := heading?_ofCurve_eq_none_iff.mp hnone
          exact ⟨k, hcurve, rfl⟩
        · rcases svg_document_error hplaces hsvg with rfl | rfl <;> cases hnone
      | noName _ _ houtput => cases houtput
    | write hcreatable =>
      cases renderConfig_eq_iff.mp hr with
      | wrote hpos hdocument houtput =>
        obtain rfl := Option.some.inj houtput
        exact ⟨hpos, .inr ⟨hdocument, hcreatable, rfl⟩⟩
  · rintro ⟨hpos, ⟨k, hcurve, rfl⟩ | ⟨hdocument, hcreatable, rfl⟩⟩
    · have hfailed := renderDocument_eq_error_iff.mpr (.inl ⟨_, hcurve, rfl⟩)
      rw [← hr, renderConfig_eq_iff.mpr (.failed hpos hfailed)]
      exact .failed rfl
    · rw [← hr, renderConfig_eq_iff.mpr (.wrote hpos hdocument rfl)]
      exact .write hcreatable

lemma expansion_escapes_iff :
    (replyOf ((expandConfig c).map wordReply)).Escapes t e ↔
      ∃ w, expandConfig c = .ok w ∧ Text.isWhole w = false ∧ e = .unencodable := by
  cases hw : expandConfig c with
  | error e' =>
    obtain ⟨_, -, rfl⟩ := expandConfig_eq_error_iff.mp hw
    exact iff_of_false (fun h => nomatch (Reply.escapes_failed_iff.mp h).2) (by simp)
  | ok w =>
    cases hwhole : Text.isWhole w with
    | true =>
      refine iff_of_false (fun h => ?_) (by simp [hwhole])
      simp only [Except.map, replyOf, wordReply, if_pos hwhole] at h
      cases h
    | false =>
      simp only [Except.map, replyOf, wordReply, hwhole, Bool.false_eq_true, if_false,
        Reply.escapes_failed_iff]
      constructor
      · rintro ⟨rfl, -⟩
        exact ⟨w, rfl, hwhole, rfl⟩
      · rintro ⟨_, -, -, rfl⟩
        exact ⟨rfl, rfl⟩

lemma validateConfig_escapes_iff :
    (validateConfig c).Escapes t e ↔
      (Printable c ∧ ∃ k, c.grammar.curve none (some defaultLimit) =
        .error (.walk (.noDirection k)) ∧ e = .walk (.noDirection k)) ∨
      ¬ Printable c ∧ e = .unencodable := by
  simp only [Grammar.curve_eq_walk_error_iff]
  generalize hr : validateConfig c = r
  constructor
  · intro h
    cases h with
    | failed hnone =>
      cases validateConfig_eq_iff.mp hr with
      | unencodable hprintable => exact .inr ⟨hprintable, rfl⟩
      | expansion _ hw =>
        obtain ⟨cause, -, rfl⟩ := expandConfig_eq_error_iff.mp hw
        cases hnone
      | walk hprintable hw hd =>
        obtain ⟨k, hk⟩ := heading?_ofCurve_eq_none_iff.mp
          (show (Failure.ofCurve (.walk _)).heading? = none from hnone)
        obtain rfl := CurveError.walk.inj hk
        exact .inl ⟨hprintable, k, ⟨_, expandConfig_eq_ok_iff.mp hw, hd⟩, rfl⟩
      | noPaths => cases hnone
    | write => exact absurd hr (validateConfig_ne_write _ _ _)
  · rintro (⟨hprintable, k, ⟨w, hw, hd⟩, rfl⟩ | ⟨hprintable, rfl⟩)
    · rw [← hr, validateConfig_eq_iff.mpr (.walk hprintable (expandConfig_eq_ok_iff.mpr hw) hd)]
      exact .failed rfl
    · rw [← hr, validateConfig_eq_iff.mpr (.unencodable hprintable)]
      exact .failed rfl

/-- The word that an invocation walks of a configuration, if it comes to that. -/
def Invocation.walked? (c : Config) : Invocation → Option Word
  | .render _ _ iterations limit =>
    let c := c.withIterations iterations
    if c.iterations ≤ 0 then none else (c.grammar.expand none limit).toOption
  | .validate _ =>
    if Printable c then (c.grammar.expand none (some defaultLimit)).toOption else none
  | .expand .. | .preset .. | .presets => none

/-- An invocation on a configuration from which no value was left out. -/
inductive Invocation.Complete (config : String) : Invocation → Prop
  | render {output} (iterations : Option Int) (limit : Int) : Files.NulFree output →
      Complete config (.render config (some output) iterations (some limit))
  | expand (iterations : Option Int) : Complete config (.expand config iterations)
  | validate : Complete config (.validate config)

/-- What an invocation comes to print or to write of a configuration has no encoding. -/
inductive Invocation.Unencoded (t : Files.Tree) (c : Config) : Invocation → Prop
  | render {config output iterations limit} : 0 < (c.withIterations iterations).iterations →
      renderDocument (c.withIterations iterations) limit = .ok none → t.Creatable output →
      Unencoded t c (.render config (some output) iterations limit)
  | expand {config iterations w} : expandConfig (c.withIterations iterations) = .ok w →
      Text.isWhole w = false → Unencoded t c (.expand config iterations)
  | validate {config} : ¬ Printable c → Unencoded t c (.validate config)

/-- What ends an invocation unreported: a number or a half of a pair in the file, or a step in the
word. -/
inductive Escape (config : String) (i : Invocation) (t : Files.Tree) : Failure → Prop
  | number {v} : t.Holds config v → Config.ofJson v = .error .numberTooLarge → Config.Oversized v →
      Escape config i t (.config (.content .numberTooLarge))
  | digits {bytes text count} : t.read config = .ok bytes → Text.Utf8.decode bytes = .ok text →
      Json.read (Text.unifyBreaks [] text) = .error (.tooManyDigits count) →
      Escape config i t (.config (.json config (Text.unifyBreaks [] text) (.tooManyDigits count)))
  | direction {c w front rest s negative} : loadConfig config (t.read config) = .ok c →
      i.walked? c = some w → w.commands = front ++ .forward :: rest →
      Walk.Run (radians c.grammar.angle) .start front s →
      Binary64.value s.pose.heading = .infinite negative →
      Escape config i t (.walk (.noDirection front.length))
  | encoding {v c} : t.Holds config v → v.HasHalf → loadConfig config (t.read config) = .ok c →
      i.Unencoded t c → Escape config i t .unencodable

end Config

section Escape

variable {config : String} {i : Invocation} {t : Files.Tree} {c : Config} {e : Failure}

lemma loadConfig_eq_content_iff {e : Config.Error} :
    loadConfig config (t.read config) = .error (.config (.content e)) ↔
      ∃ v, t.Holds config v ∧ Config.ofJson v = .error e := by
  rw [loadConfig_eq_error_iff]
  constructor
  · rintro (⟨cause, -, hcause⟩ | ⟨bytes, cause, hbytes, hcontent, hcause⟩)
    · cases hcause
    · obtain rfl := Failure.config.inj hcause
      obtain ⟨text, v, htext, hv, hjson⟩ := Config.ofBytes_eq_content_iff.mp hcontent
      exact ⟨v, ⟨bytes, text, hbytes, htext, hv⟩, hjson⟩
  · rintro ⟨v, ⟨bytes, text, hbytes, htext, hv⟩, hjson⟩
    exact .inr ⟨bytes, _, hbytes, Config.ofBytes_eq_content_iff.mpr ⟨text, v, htext, hv, hjson⟩, rfl⟩

lemma loadConfig_eq_json {bytes : List UInt8} {text : List Char} {e : Json.Error}
    (hbytes : t.read config = .ok bytes) (htext : Text.Utf8.decode bytes = .ok text)
    (hread : Json.read (Text.unifyBreaks [] text) = .error e) :
    loadConfig config (t.read config) =
      .error (.config (.json config (Text.unifyBreaks [] text) e)) :=
  loadConfig_eq_error_iff.mpr (.inr ⟨_, _, hbytes,
    Config.ofBytes_eq_json_iff.mpr ⟨_, htext, rfl, hread, rfl⟩, rfl⟩)

lemma escape_iff_of_error (hload : loadConfig config (t.read config) = .error e)
    (hconfig : Files.NulFree config) {e' : Failure} :
    Escape config i t e' ↔ e = e' ∧ e.heading? = none := by
  constructor
  · intro h
    cases h with
    | number hv hjson _ =>
      obtain rfl := Except.error.inj
        (hload.symm.trans (loadConfig_eq_content_iff.mpr ⟨_, hv, hjson⟩))
      exact ⟨rfl, rfl⟩
    | digits hbytes htext hread =>
      obtain rfl := Except.error.inj (hload.symm.trans (loadConfig_eq_json hbytes htext hread))
      exact ⟨rfl, rfl⟩
    | direction hok | encoding _ _ hok => exact nomatch hload.symm.trans hok
  · rintro ⟨rfl, hnone⟩
    -- Of what goes wrong before there is a configuration, only two things have no heading.
    rcases loadConfig_eq_error_iff.mp hload with
      ⟨⟨fault, name⟩, hfile, rfl⟩ | ⟨bytes, cause, hbytes, hcause, rfl⟩
    · have hfault := Files.Tree.read_ne_nul hconfig hfile
      cases fault with
      | nul => exact absurd rfl hfault
      | _ => cases hnone
    · cases cause with
      | encoding => cases hnone
      | json path text cause =>
        cases cause with
        | malformed => cases hnone
        | tooManyDigits count =>
          obtain ⟨text', htext, rfl, hread, rfl⟩ := Config.ofBytes_eq_json_iff.mp hcause
          exact .digits hbytes htext hread
      | content cause =>
        cases cause with
        | numberTooLarge =>
          obtain ⟨v, hv, hjson⟩ := loadConfig_eq_content_iff.mp hload
          exact .number hv hjson (Config.oversized_of_ofJson hjson)
        | _ => cases hnone

lemma Invocation.Unencoded.not_isWhole (h : i.Unencoded t c) : ¬ c.IsWhole := by
  intro hc
  cases h with
  | render _ hdocument _ => exact renderDocument_ne_none (hc.withIterations _) _ hdocument
  | expand hw hhalf =>
    have hwhole := (hc.withIterations _).word (Except.mapError_eq_ok_iff.mp hw)
    exact nomatch hhalf.symm.trans hwhole
  | validate hprintable => exact hprintable (printable_iff.mpr ⟨hc.name, hc.rules⟩)

lemma escape_iff_of_ok (hload : loadConfig config (t.read config) = .ok c) :
    Escape config i t e ↔ (∃ w k, i.walked? c = some w ∧
      trace w.commands c.grammar.angle = .error (.noDirection k) ∧ e = .walk (.noDirection k)) ∨
      i.Unencoded t c ∧ e = .unencodable := by
  constructor
  · intro h
    cases h with
    | number hv hjson _ =>
      exact nomatch hload.symm.trans (loadConfig_eq_content_iff.mpr ⟨_, hv, hjson⟩)
    | digits hbytes htext hread =>
      exact nomatch hload.symm.trans (loadConfig_eq_json hbytes htext hread)
    | direction hok hw hcommands hrun hvalue =>
      obtain rfl := Except.ok.inj (hload.symm.trans hok)
      exact .inl ⟨_, _, hw,
        trace_eq_noDirection_iff.mpr ⟨_, _, _, _, hcommands, rfl, hrun, hvalue⟩, rfl⟩
    | encoding _ _ hok hi =>
      obtain rfl := Except.ok.inj (hload.symm.trans hok)
      exact .inr ⟨hi, rfl⟩
  · rintro (⟨w, k, hw, htrace, rfl⟩ | ⟨hi, rfl⟩)
    · obtain ⟨front, rest, s, negative, hcommands, rfl, hrun, hvalue⟩ :=
        trace_eq_noDirection_iff.mp htrace
      exact .direction hload hw hcommands hrun hvalue
    · obtain ⟨v, hv, hjson⟩ := exists_holds_of_loadConfig hload
      refine .encoding hv (by_contra fun hhalf => ?_) hload hi
      exact hi.not_isWhole (Config.isWhole_of_ofJson hjson hhalf)

namespace Invocation.Complete

lemma source?_eq (hi : i.Complete config) : i.source? = some config := by
  cases hi <;> rfl

lemma escapes_iff_of_ok (hi : i.Complete config)
    (hload : loadConfig config (t.read config) = .ok c) :
    (i.reply (t.read config)).Escapes t e ↔ (∃ w k, i.walked? c = some w ∧
      trace w.commands c.grammar.angle = .error (.noDirection k) ∧ e = .walk (.noDirection k)) ∨
      i.Unencoded t c ∧ e = .unencodable := by
  obtain ⟨bytes, -, hbytes⟩ := loadConfig_eq_ok_iff.mp hload
  cases hi with
  | @render output iterations limit houtput =>
    have hplaces : ∃ places,
        Decimal.placesOf (c.withIterations iterations).canvas.precision = .ok places := by
      cases iterations <;> exact (Config.ofBytes_inRange hbytes).placesOf
    have hangle : (c.withIterations iterations).grammar.angle = c.grammar.angle := by
      cases iterations <;> rfl
    rw [reply_render hload, renderConfig_escapes_iff hplaces]
    simp only [Grammar.curve_eq_walk_error_iff, hangle, walked?]
    constructor
    · rintro ⟨hpos, ⟨k, ⟨w, hw, hk⟩, rfl⟩ | ⟨hdocument, hcreatable, rfl⟩⟩
      · refine .inl ⟨w, k, ?_, hk, rfl⟩
        rw [if_neg (Int.not_le.mpr hpos), hw]
        rfl
      · exact .inr ⟨.render hpos hdocument hcreatable, rfl⟩
    · rintro (⟨w, k, hw, hk, rfl⟩ | ⟨hunencoded, rfl⟩)
      · split at hw
        · cases hw
        · next hpos =>
          exact ⟨Int.not_le.mp hpos, .inl ⟨k, ⟨w, Except.toOption_eq_some_iff.mp hw, hk⟩, rfl⟩⟩
      · cases hunencoded with
        | render hpos hdocument hcreatable => exact ⟨hpos, .inr ⟨hdocument, hcreatable, rfl⟩⟩
  | expand iterations =>
    -- A word that is printed is not walked.
    rw [reply_expand hload, expansion_escapes_iff]
    constructor
    · rintro ⟨w, hw, hhalf, rfl⟩
      exact .inr ⟨.expand hw hhalf, rfl⟩
    · rintro (⟨w, k, hw, -⟩ | ⟨hunencoded, rfl⟩)
      · cases hw
      · cases hunencoded with
        | expand hw hhalf => exact ⟨_, hw, hhalf, rfl⟩
  | validate =>
    rw [reply_validate hload, validateConfig_escapes_iff]
    simp only [Grammar.curve_eq_walk_error_iff, walked?]
    constructor
    · rintro (⟨hprintable, k, ⟨w, hw, hk⟩, rfl⟩ | ⟨hprintable, rfl⟩)
      · refine .inl ⟨w, k, ?_, hk, rfl⟩
        rw [if_pos hprintable, hw]
        rfl
      · exact .inr ⟨.validate hprintable, rfl⟩
    · rintro (⟨w, k, hw, hk, rfl⟩ | ⟨hunencoded, rfl⟩)
      · split at hw
        · next hprintable =>
          exact .inl ⟨hprintable, k, ⟨w, Except.toOption_eq_some_iff.mp hw, hk⟩, rfl⟩
        · cases hw
      · cases hunencoded with
        | validate hprintable => exact .inr ⟨hprintable, rfl⟩

lemma escapes_iff (hi : i.Complete config) (hconfig : Files.NulFree config) :
    (i.reply (t.read config)).Escapes t e ↔ Escape config i t e := by
  cases hload : loadConfig config (t.read config) with
  | error e' =>
    rw [reply_of_error hi.source?_eq hload, Reply.escapes_failed_iff,
      escape_iff_of_error hload hconfig]
  | ok c => rw [hi.escapes_iff_of_ok hload, escape_iff_of_ok hload]

lemma sourceIn_eq (hi : i.Complete config) (t : Files.Tree) : i.sourceIn t = t.read config := by
  cases hi <;> rfl

lemma nulFree_output (hi : i.Complete config) {name : String} (h : i.output? = some name) :
    Files.NulFree name := by
  cases hi with
  | render _ _ houtput => exact Option.some.inj h ▸ houtput
  | expand | validate => cases h

lemma foreseen_of_done (hi : i.Complete config) {source : Source} {stdout stderr : String} {n : ℕ}
    (h : i.reply source = .done stdout stderr n) :
    (⟨stdout, stderr, .code n⟩ : Outcome).Foreseen := by
  cases hload : loadConfig config source with
  | error e => exact nomatch (reply_of_error hi.source?_eq hload).symm.trans h
  | ok c =>
    cases hi with
    | render iterations limit =>
      rw [reply_render hload] at h
      cases renderConfig_eq_iff.mp h with
      | nothing =>
        refine .inr (.inl ⟨rfl, ?_⟩)
        rw [Outcome.Reports, String.toList_append, String.toList_append, List.append_assoc]
        exact List.IsPrefix.trans ⟨"iterations is ".toList, rfl⟩ (List.prefix_append _ _)
    | expand iterations =>
      rw [reply_expand hload] at h
      obtain h | ⟨e, -, he⟩ := replyOf_eq_iff.mp h
      · obtain ⟨w, -, hw⟩ := Except.map_eq_ok_iff.mp h
        unfold wordReply at hw
        split at hw
        · obtain ⟨rfl, rfl, rfl⟩ := Reply.done.inj hw
          exact .inl rfl
        · cases hw
      · cases he
    | validate =>
      rw [reply_validate hload] at h
      cases validateConfig_eq_iff.mp h
      exact .inl rfl

end Invocation.Complete

lemma Outcome.foreseen_file {stdout : String} {cause : Files.Error} (h : cause.fault ≠ .nul) :
    (Outcome.ofFailure stdout (.file cause)).Foreseen := by
  obtain ⟨fault, name⟩ := cause
  refine foreseen_ofFailure ?_
  cases fault with
  | nul => exact absurd rfl h
  | _ => simp [Failure.heading?]

end Escape

/-- A command on a configuration ends as it is foreseen, unless there is something in the configuration
that ends it unreported. -/
theorem run_foreseen_or_escape {args : List String} {t : Files.Tree} {i : Invocation} {config : String}
    (hargs : Invocation.ofArguments args = .ok i) (hi : i.Complete config)
    (hconfig : Files.NulFree config) (hhere : ∀ s ∈ t.here, Files.NulFree s) :
    ∃ o u, run args t = .ok (o, u) ∧ (o.Foreseen ∨ ∃ e, o.exit = .escaped e) ∧
      ∀ e, o.exit = .escaped e ↔ Escape config i t e := by
  obtain ⟨o, u, hran⟩ : ∃ o u, i.Ran t o u := ⟨_, _, Invocation.run_eq_iff.mp rfl⟩
  refine ⟨o, u, run_eq_ok_iff.mpr ⟨i, hargs, hran⟩, ?_⟩
  have hescapes (e : Failure) := hi.escapes_iff (t := t) (e := e) hconfig
  cases hran with
  | done hreply =>
    rw [hi.sourceIn_eq] at hreply
    refine ⟨.inl (hi.foreseen_of_done hreply), fun e => ?_⟩
    rw [← hescapes, hreply]
    exact iff_of_false (by simp) fun h => nomatch h
  | @failed _ e hreply =>
    rw [hi.sourceIn_eq] at hreply
    constructor
    · by_cases hnone : e.heading? = none
      · exact .inr ⟨e, Outcome.exit_ofFailure_eq_escaped_iff.mpr ⟨rfl, hnone⟩⟩
      · exact .inl (Outcome.foreseen_ofFailure hnone)
    · intro e'
      rw [← hescapes, hreply, Outcome.exit_ofFailure_eq_escaped_iff, Reply.escapes_failed_iff]
  | @wrote name text cause u hreply hwrite =>
    have hname := hi.nulFree_output (Invocation.reply_eq_write hreply).1
    rw [hi.sourceIn_eq] at hreply
    cases cause with
    | some cause =>
      have hforeseen : (Outcome.ofFailure "" (.file cause)).Foreseen :=
        Outcome.foreseen_file (Files.Tree.write_ne_nul hname hhere hwrite)
      refine ⟨.inl hforeseen, fun e => ?_⟩
      rw [← hescapes, hreply]
      refine iff_of_false (hforeseen.not_escaped e) fun h => ?_
      cases h with
      | write hcreatable =>
        obtain ⟨u', hu'⟩ := hcreatable.write (Text.Utf8.encode (none.getD []))
        exact nomatch hwrite.symm.trans hu'
    | none =>
      cases text with
      | some text =>
        refine ⟨.inl (.inl rfl), fun e => ?_⟩
        rw [← hescapes, hreply]
        exact iff_of_false (by simp [Outcome.ofWrite]) fun h => nomatch h
      | none =>
        refine ⟨.inr ⟨.unencodable, rfl⟩, fun e => ?_⟩
        have hcreatable : t.Creatable name := ⟨_, congrArg Prod.fst hwrite⟩
        rw [← hescapes, hreply]
        constructor
        · intro h
          obtain rfl := Exit.escaped.inj h
          exact .write hcreatable
        · intro h
          cases h with
          | write => rfl

/-- A turn by an infinite angle, with a step forward after it and without. -/
def endlessTree : Files.Tree :=
  filesOf [("step.json", "\x7b\"seed\":\"+f\",\"angle\":Infinity\x7d"),
    ("turn.json", "\x7b\"seed\":\"f+\",\"angle\":Infinity\x7d")]

lemma endlessTree_nulFree : ∀ s ∈ endlessTree.here, Files.NulFree s :=
  fun _ hs => absurd hs List.not_mem_nil

theorem run_turn_endless : ∃ o u,
    run ["validate", "turn.json"] endlessTree = .ok (o, u) ∧ o.exit = .code 0 ∧
      ∀ e, ¬ Escape "turn.json" (.validate "turn.json") endlessTree e := by
  have hseen : seen ["validate", "turn.json"] endlessTree =
      some (unlines ["name: L-System", "seed length: 2", "iterations: 0", "rules: 0", "angle: inf",
        "svg: 800x600 margin=10 precision=3 flip_y=True", "symbols: 2", "paths: 1",
        "bounds: x=[0, 1] y=[0, 0]"], "", some 0) := by
    decide +kernel
  obtain ⟨exit, u, hrun, hexit⟩ := run_of_seen hseen
  have hzero := (hexit 0).mpr rfl
  have hname : IsName "turn.json" := isName_of_not_dashed (by simp)
  have hfree : Files.NulFree "turn.json" := by simp [Files.NulFree]
  obtain ⟨o, u', hrun', -, hescape⟩ :=
    run_foreseen_or_escape (ofArguments_validate hname) .validate hfree endlessTree_nulFree
  obtain ⟨rfl, rfl⟩ := Prod.mk.inj (Except.ok.inj (hrun'.symm.trans hrun))
  refine ⟨_, _, hrun, hzero, fun e he => ?_⟩
  have hescaped := (hescape e).mpr he
  rw [hzero] at hescaped
  cases hescaped

theorem run_step_endless : ∃ o u e,
    run ["validate", "step.json"] endlessTree = .ok (o, u) ∧ o.exit = .escaped e ∧
      ¬ o.Foreseen ∧ (Invocation.validate "step.json").Complete "step.json" := by
  have hseen : seen ["validate", "step.json"] endlessTree =
      some (unlines ["name: L-System", "seed length: 2", "iterations: 0", "rules: 0", "angle: inf",
        "svg: 800x600 margin=10 precision=3 flip_y=True"], "", none) := by
    decide +kernel
  obtain ⟨exit, u, hrun, hexit⟩ := run_of_seen hseen
  cases exit with
  | code n => exact nomatch (hexit n).mp rfl
  | escaped e => exact ⟨_, u, e, hrun, rfl, fun h => h.not_escaped e rfl, .validate⟩

end Lindenmayer.CommandLine
