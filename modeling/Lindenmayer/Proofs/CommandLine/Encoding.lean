import Lindenmayer.Proofs.CommandLine.Reply
import Lindenmayer.Proofs.Config.Whole

/-! Texts without an encoding. A command that comes to print or to write one has read a configuration with
a half of a pair in it. -/

namespace Lindenmayer

/-- What the text of a file means as JSON. -/
def Files.Tree.Holds (t : Files.Tree) (name : String) (v : Json) : Prop :=
  ∃ bytes text, t.read name = .ok bytes ∧ Text.Utf8.decode bytes = .ok text ∧
    Json.read (Text.unifyBreaks [] text) = .ok v

lemma Files.Tree.Holds.unique {t : Files.Tree} {name : String} {v w : Json} (hv : t.Holds name v)
    (hw : t.Holds name w) : v = w := by
  obtain ⟨bytes, text, hread, htext, hv⟩ := hv
  obtain ⟨bytes', text', hread', htext', hw⟩ := hw
  obtain rfl := Except.ok.inj (hread.symm.trans hread')
  obtain rfl := Except.ok.inj (htext.symm.trans htext')
  exact Except.ok.inj (hv.symm.trans hw)

namespace CommandLine

/-- The configuration that an invocation names has a half of a pair somewhere. -/
def Invocation.ReadsHalf (i : Invocation) (t : Files.Tree) : Prop :=
  ∃ config v, i.source? = some config ∧ t.Holds config v ∧ v.HasHalf

lemma exists_holds_of_loadConfig {t : Files.Tree} {config : String} {c : Config}
    (h : loadConfig config (t.read config) = .ok c) :
    ∃ v, t.Holds config v ∧ Config.ofJson v = .ok c := by
  obtain ⟨bytes, hread, hbytes⟩ := loadConfig_eq_ok_iff.mp h
  obtain ⟨text, v, htext, hv, hc⟩ := Config.ofBytes_eq_ok_iff.mp hbytes
  exact ⟨v, ⟨bytes, text, hread, htext, hv⟩, hc⟩

lemma presetConfig_isWhole {name : String} {width height : Option Float} {c : Config}
    (h : presetConfig name width height = .ok c) : c.IsWhole := by
  have hlength (length : Option Float) : ¬ (lengthJson length).HasHalf := by
    cases length with
    | none => simp [lengthJson, Json.hasHalf_array_iff]
    | some x => exact fun hhalf => nomatch hhalf
  refine Config.isWhole_of_ofJson (Except.mapError_eq_ok_iff.mp h) ?_
  simp [Json.hasHalf_object_iff, Json.hasHalf_string_iff, hlength]

lemma printable_iff {c : Config} :
    Printable c ↔ Text.isWhole c.name = true ∧ c.grammar.rules.IsWhole := by
  rw [← RuleTable.all_isWhole_lines_format]
  simp [Printable, summaryLines, List.all_map]

lemma isWritable_iff {c : Config} :
    isWritable c = true ↔ Text.isWhole c.name = true ∧ c.canvas.IsWhole := by
  simp [isWritable, Svg.Canvas.IsWhole]

lemma renderDocument_ne_none {c : Config} (h : c.IsWhole) (limit : Option Int) :
    renderDocument c limit ≠ .ok none := by
  intro hdocument
  obtain ⟨_, _, _, -, -, -, htext⟩ := renderDocument_eq_ok_iff.mp hdocument
  rw [if_pos (isWritable_iff.mpr ⟨h.name, h.canvas⟩)] at htext
  cases htext

/-- A reply that comes to nothing because of a text without an encoding. -/
inductive Reply.Unencodable : Reply → Prop
  | failed {stdout} : Unencodable (.failed stdout .unencodable)
  | write {output} : Unencodable (.write output none)

lemma not_isWhole_of_renderConfig {c : Config} {output : Option String} {limit : Option Int}
    (h : (renderConfig c output limit).Unencodable) : ¬ c.IsWhole := by
  intro hwhole
  generalize hr : renderConfig c output limit = r at h
  cases h with
  | failed =>
    cases renderConfig_eq_iff.mp hr with
    | failed _ hdocument =>
      cases limit with
      | none => cases hdocument
      | some l =>
        rcases renderDocument_eq_error_iff.mp hdocument with
          ⟨cause, -, hcause⟩ | ⟨_, _, -, -, hcause⟩
        · cases cause <;> cases hcause
        · cases hcause
  | write =>
    cases renderConfig_eq_iff.mp hr with
    | wrote _ hdocument _ => exact renderDocument_ne_none hwhole limit hdocument

lemma not_isWhole_of_validateConfig {c : Config} (h : (validateConfig c).Unencodable) :
    ¬ c.IsWhole := by
  intro hwhole
  generalize hr : validateConfig c = r at h
  cases h with
  | failed =>
    cases validateConfig_eq_iff.mp hr with
    | unencodable hprintable => exact hprintable (printable_iff.mpr ⟨hwhole.name, hwhole.rules⟩)
    | expansion _ hw =>
      obtain ⟨_, -, hcause⟩ := expandConfig_eq_error_iff.mp hw
      cases hcause
  | write => exact absurd hr (validateConfig_ne_write _ _ _)

lemma not_isWhole_of_wordReply {c : Config} {w : Word} (hw : expandConfig c = .ok w)
    (h : (wordReply w).Unencodable) : ¬ c.IsWhole := by
  intro hwhole
  have hword : Text.isWhole w = true := hwhole.word (Except.mapError_eq_ok_iff.mp hw)
  rw [wordReply, if_pos hword] at h
  cases h

lemma loadConfig_ne_unencodable (config : String) (source : Source) :
    loadConfig config source ≠ .error .unencodable := by
  intro h
  rcases loadConfig_eq_error_iff.mp h with ⟨_, -, hcause⟩ | ⟨_, _, -, -, hcause⟩ <;> cases hcause

namespace Invocation

lemma exists_not_isWhole_of_reply {i : Invocation} {config : String} {source : Source}
    (hi : i.source? = some config) (h : (i.reply source).Unencodable) :
    ∃ c, loadConfig config source = .ok c ∧ ¬ c.IsWhole := by
  cases hload : loadConfig config source with
  | error e =>
    rw [reply_of_error hi hload] at h
    cases h
    exact absurd hload (loadConfig_ne_unencodable _ _)
  | ok c =>
    refine ⟨c, rfl, fun hc => ?_⟩
    cases i with
    | render _ output iterations limit =>
      obtain rfl := Option.some.inj hi
      rw [reply_render hload] at h
      exact not_isWhole_of_renderConfig h (hc.withIterations iterations)
    | expand _ iterations =>
      obtain rfl := Option.some.inj hi
      rw [reply_expand hload] at h
      cases hw : expandConfig (c.withIterations iterations) with
      | error e =>
        obtain ⟨_, -, rfl⟩ := expandConfig_eq_error_iff.mp hw
        rw [hw] at h
        cases h
      | ok w =>
        rw [hw] at h
        exact not_isWhole_of_wordReply hw h (hc.withIterations iterations)
    | validate =>
      obtain rfl := Option.some.inj hi
      rw [reply_validate hload] at h
      exact not_isWhole_of_validateConfig h hc
    | preset | presets => cases hi

lemma not_unencodable_preset {name : String} {output : Option String}
    {iterations limit : Option Int} {width height : Option Float} {source : Source} :
    ¬ ((Invocation.preset name output iterations width height limit).reply source).Unencodable := by
  intro h
  cases hload : presetConfig name width height with
  | error e =>
    obtain ⟨_, -, rfl⟩ := Except.mapError_eq_error_iff.mp hload
    simp only [reply, hload] at h
    cases h
  | ok c =>
    simp only [reply, hload] at h
    exact not_isWhole_of_renderConfig h ((presetConfig_isWhole hload).withIterations iterations)

lemma readsHalf_of_reply {i : Invocation} {t : Files.Tree}
    (h : (i.reply (i.sourceIn t)).Unencodable) : i.ReadsHalf t := by
  cases hi : i.source? with
  | some config =>
    have hsource : i.sourceIn t = t.read config := by
      rw [sourceIn, hi]
    rw [hsource] at h
    obtain ⟨c, hload, hc⟩ := exists_not_isWhole_of_reply hi h
    obtain ⟨v, hv, hjson⟩ := exists_holds_of_loadConfig hload
    exact ⟨config, v, hi, hv, by_contra fun hhalf => hc (Config.isWhole_of_ofJson hjson hhalf)⟩
  | none =>
    cases i with
    | preset => exact absurd h not_unencodable_preset
    | presets => cases h
    | render | expand | validate => cases hi

end Invocation

end CommandLine

end Lindenmayer
