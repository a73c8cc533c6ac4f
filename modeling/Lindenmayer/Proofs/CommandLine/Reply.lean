import Lindenmayer.CommandLine.Run
import Lindenmayer.Proofs.Except
import Lindenmayer.Proofs.Svg.Document

/-! What a command replies. Only a command that draws replies with something to write, and then it is one
whole document, unless it has no encoding; what is reported otherwise tells the kind of the failure. -/

namespace Lindenmayer.CommandLine

lemma renderDocument_eq_ok_iff {c : Config} {limit : Option Int} {text : Option (List Char)} :
    renderDocument c limit = .ok text ↔
      ∃ l d document, limit = some l ∧ c.grammar.curve none (some l) = .ok d ∧
        documentOf c d = .ok document ∧ text = if isWritable c then some document else none := by
  unfold renderDocument
  cases limit with
  | none => simp
  | some l =>
    cases hcurve : c.grammar.curve none (some l) with
    | error e => simp [hcurve]
    | ok d =>
      cases hdocument : documentOf c d with
      | error cause => simp [hcurve, hdocument]
      | ok document =>
        simp only [hcurve, hdocument, Except.ok.injEq]
        constructor
        · rintro rfl
          exact ⟨l, d, document, rfl, hcurve, hdocument, rfl⟩
        · rintro ⟨l', d', document', hl, hcurve', hdocument', rfl⟩
          obtain rfl := Option.some.inj hl
          obtain rfl := Except.ok.inj (hcurve.symm.trans hcurve')
          obtain rfl := Except.ok.inj (hdocument.symm.trans hdocument')
          rfl

lemma renderDocument_eq_error_iff {c : Config} {l : Int} {e : Failure} :
    renderDocument c (some l) = .error e ↔
      (∃ cause, c.grammar.curve none (some l) = .error cause ∧ .ofCurve cause = e) ∨
      ∃ d cause, c.grammar.curve none (some l) = .ok d ∧
        documentOf c d = .error cause ∧ .svg cause = e := by
  unfold renderDocument
  cases hcurve : c.grammar.curve none (some l) with
  | error e' => simp [hcurve]
  | ok d =>
    cases hdocument : documentOf c d <;> simp [hcurve, hdocument]

/-- How a render ends. That its output was left out is found only when all else went well. -/
inductive Rendered (c : Config) (output : Option String) (limit : Option Int) : Reply → Prop
  | nothing : c.iterations ≤ 0 → Rendered c output limit
      (.done "" s!"Nothing rendered: iterations is {c.iterations}, need at least 1\n" 1)
  | failed {e} : 0 < c.iterations → renderDocument c limit = .error e →
      Rendered c output limit (.failed "" e)
  | noName {text} : 0 < c.iterations → renderDocument c limit = .ok text → output = none →
      Rendered c output limit (.failed "" .noName)
  | wrote {text name} : 0 < c.iterations → renderDocument c limit = .ok text →
      output = some name → Rendered c output limit (.write name text)

lemma renderConfig_eq_iff {c : Config} {output : Option String} {limit : Option Int} {r : Reply} :
    renderConfig c output limit = r ↔ Rendered c output limit r := by
  unfold renderConfig
  constructor
  · rintro rfl
    split
    · next h => exact .nothing h
    · next h =>
      have hpos := Int.not_le.mp h
      split
      · next hdocument => exact .failed hpos hdocument
      · next hdocument =>
        cases output with
        | none => exact .noName hpos hdocument rfl
        | some name => exact .wrote hpos hdocument rfl
  · intro h
    cases h with
    | nothing h => rw [if_pos h]
    | failed hpos hdocument => rw [if_neg (Int.not_le.mpr hpos), hdocument]
    | noName hpos hdocument houtput =>
      rw [if_neg (Int.not_le.mpr hpos), hdocument, houtput]
      rfl
    | wrote hpos hdocument houtput =>
      rw [if_neg (Int.not_le.mpr hpos), hdocument, houtput]
      rfl

lemma renderConfig_ne_done_zero (c : Config) (output : Option String) (limit : Option Int)
    (stdout stderr : String) : renderConfig c output limit ≠ .done stdout stderr 0 :=
  fun h => nomatch renderConfig_eq_iff.mp h

lemma expandConfig_eq_ok_iff {c : Config} {w : Word} :
    expandConfig c = .ok w ↔ c.grammar.expand none (some defaultLimit) = .ok w :=
  Except.mapError_eq_ok_iff

lemma expandConfig_eq_error_iff {c : Config} {e : Failure} :
    expandConfig c = .error e ↔
      ∃ cause, c.grammar.expand none (some defaultLimit) = .error cause ∧ .expansion cause = e :=
  Except.mapError_eq_error_iff

def validation (c : Config) (w : Word) (d : Drawing Float) : String :=
  printed (summaryLines c) ++ unlines (drawingLines w.length d)

abbrev Printable (c : Config) : Prop := (summaryLines c).all Text.isWhole = true

inductive Validated (c : Config) : Reply → Prop
  | unencodable : ¬ Printable c → Validated c (.failed (printed (summaryLines c)) .unencodable)
  | expansion {e} : Printable c → expandConfig c = .error e →
      Validated c (.failed (printed (summaryLines c)) e)
  | walk {w e} : Printable c → expandConfig c = .ok w →
      trace w.commands c.grammar.angle = .error e →
      Validated c (.failed (printed (summaryLines c)) (.walk e))
  | noPaths {w d} : Printable c → expandConfig c = .ok w →
      trace w.commands c.grammar.angle = .ok d → d.paths = [] →
      Validated c (.failed (validation c w d) .noPaths)
  | done {w d} : Printable c → expandConfig c = .ok w → trace w.commands c.grammar.angle = .ok d →
      d.paths ≠ [] → Validated c (.done (validation c w d) "" 0)

lemma validateConfig_eq_iff {c : Config} {r : Reply} : validateConfig c = r ↔ Validated c r := by
  unfold validateConfig
  constructor
  · rintro rfl
    split
    · next hprintable =>
      split
      · next hw => exact .expansion hprintable hw
      · next w hw =>
        split
        · next hd => exact .walk hprintable hw hd
        · next d hd =>
          split
          · next hpaths => exact .noPaths hprintable hw hd (List.isEmpty_iff.mp hpaths)
          · next hpaths => exact .done hprintable hw hd fun h => hpaths (List.isEmpty_iff.mpr h)
    · next hprintable => exact .unencodable hprintable
  · intro h
    cases h with
    | unencodable hprintable => simp only [if_neg hprintable]
    | expansion hprintable hw => simp only [if_pos hprintable, hw]
    | walk hprintable hw hd => simp only [if_pos hprintable, hw, hd]
    | noPaths hprintable hw hd hpaths =>
      simp only [if_pos hprintable, hw, hd, hpaths, List.isEmpty_nil, if_true, validation]
    | done hprintable hw hd hpaths =>
      simp only [if_pos hprintable, hw, hd, List.isEmpty_iff, hpaths, if_false, validation]

lemma validateConfig_ne_write (c : Config) (name : String) (text : Option (List Char)) :
    validateConfig c ≠ .write name text := fun h => nomatch validateConfig_eq_iff.mp h

lemma wordReply_ne_write (w : Word) (name : String) (text : Option (List Char)) :
    wordReply w ≠ .write name text := by
  unfold wordReply
  split <;> simp

lemma replyOf_eq_iff {x : Except Failure Reply} {r : Reply} :
    replyOf x = r ↔ x = .ok r ∨ ∃ e, x = .error e ∧ r = .failed "" e := by
  cases x <;> simp [replyOf, eq_comm]

def Outcome.Reports (o : Outcome) (heading : String) : Prop := heading.toList <+: o.stderr.toList

lemma Failure.heading?_file (e : Files.Error) :
    (Failure.file e).heading? = none ∨ (Failure.file e).heading? = some "File error" := by
  obtain ⟨fault, name⟩ := e
  cases fault with
  | nul => exact .inl rfl
  | _ => exact .inr rfl

lemma Outcome.ofFailure_exit_ne_zero (stdout : String) (e : Failure) :
    (Outcome.ofFailure stdout e).exit ≠ .code 0 := by
  unfold Outcome.ofFailure
  split <;> simp

lemma Outcome.exit_ofFailure_eq_escaped_iff {stdout : String} {e e' : Failure} :
    (Outcome.ofFailure stdout e).exit = .escaped e' ↔ e = e' ∧ e.heading? = none := by
  unfold Outcome.ofFailure
  split
  · next h => simp [h]
  · next h => simp [h]

lemma Outcome.exit_ofWrite_eq_zero_iff {encoded : Bool} {e : Option Files.Error} :
    (Outcome.ofWrite encoded e).exit = .code 0 ↔ encoded = true ∧ e = none := by
  cases e with
  | none =>
    cases encoded with
    | true => exact iff_of_true rfl ⟨rfl, rfl⟩
    | false => simp [ofWrite, ofFailure_exit_ne_zero]
  | some e => simp [ofWrite, ofFailure_exit_ne_zero]

lemma Outcome.exit_ofWrite_eq_unencodable_iff {encoded : Bool} {e : Option Files.Error} :
    (Outcome.ofWrite encoded e).exit = .escaped .unencodable ↔ encoded = false ∧ e = none := by
  cases e with
  | none => cases encoded <;> simp [ofWrite, exit_ofFailure_eq_escaped_iff, Failure.heading?]
  | some e => simp [ofWrite, exit_ofFailure_eq_escaped_iff]

lemma loadConfig_eq_ok_iff {config : String} {source : Source} {c : Config} :
    loadConfig config source = .ok c ↔ ∃ bytes, source = .ok bytes ∧
      Config.ofBytes config bytes = .ok c := by
  cases source with
  | error cause => simp [loadConfig]
  | ok bytes => simp [loadConfig, Except.mapError_eq_ok_iff]

lemma loadConfig_eq_error_iff {config : String} {source : Source} {e : Failure} :
    loadConfig config source = .error e ↔ (∃ cause, source = .error cause ∧ .file cause = e) ∨
      ∃ bytes cause, source = .ok bytes ∧ Config.ofBytes config bytes = .error cause ∧
        .config cause = e := by
  cases source with
  | error cause => simp [loadConfig]
  | ok bytes => simp [loadConfig, Except.mapError_eq_error_iff]

namespace Invocation

section Loaded

variable {config : String} {source : Source} {c : Config}

lemma reply_of_error {i : Invocation} {e : Failure} (hi : i.source? = some config)
    (hload : loadConfig config source = .error e) : i.reply source = .failed "" e := by
  cases i with
  | preset | presets => cases hi
  | render | expand | validate =>
    obtain rfl := Option.some.inj hi
    simp only [reply, hload]
    rfl

lemma reply_render (hload : loadConfig config source = .ok c) (output : Option String)
    (iterations limit : Option Int) :
    (Invocation.render config output iterations limit).reply source =
      renderConfig (c.withIterations iterations) output limit := by
  simp only [reply, hload]
  rfl

lemma reply_expand (hload : loadConfig config source = .ok c) (iterations : Option Int) :
    (Invocation.expand config iterations).reply source =
      replyOf ((expandConfig (c.withIterations iterations)).map wordReply) := by
  simp only [reply, hload]
  rfl

lemma reply_validate (hload : loadConfig config source = .ok c) :
    (Invocation.validate config).reply source = validateConfig c := by
  simp only [reply, hload]
  rfl

end Loaded

/-- How a run ends by its reply, and what is there then. -/
inductive Ran (i : Invocation) (t : Files.Tree) : Outcome → Files.Tree → Prop
  | done {stdout stderr n} : i.reply (i.sourceIn t) = .done stdout stderr n →
      Ran i t ⟨stdout, stderr, .code n⟩ t
  | failed {stdout e} : i.reply (i.sourceIn t) = .failed stdout e → Ran i t (.ofFailure stdout e) t
  | wrote {name text e u} : i.reply (i.sourceIn t) = .write name text →
      t.write name (Text.Utf8.encode (text.getD [])) = (e, u) → Ran i t (.ofWrite text.isSome e) u

lemma run_eq_iff {i : Invocation} {t u : Files.Tree} {o : Outcome} :
    i.run t = (o, u) ↔ i.Ran t o u := by
  unfold run
  constructor
  · intro h
    split at h
    · next hreply =>
      obtain ⟨rfl, rfl⟩ := Prod.mk.inj h
      exact .done hreply
    · next hreply =>
      obtain ⟨rfl, rfl⟩ := Prod.mk.inj h
      exact .failed hreply
    · next hreply =>
      obtain ⟨rfl, rfl⟩ := Prod.mk.inj h
      exact .wrote hreply rfl
  · intro h
    cases h with
    | done hreply => rw [hreply]
    | failed hreply => rw [hreply]
    | wrote hreply hwrite => simp only [hreply, hwrite]

end Invocation

lemma run_eq_ok_iff {args : List String} {t u : Files.Tree} {o : Outcome} :
    run args t = .ok (o, u) ↔ ∃ i, Invocation.ofArguments args = .ok i ∧ i.Ran t o u :=
  Except.map_eq_ok_iff.trans
    ⟨fun ⟨i, hi, hrun⟩ => ⟨i, hi, Invocation.run_eq_iff.mp hrun⟩,
      fun ⟨i, hi, hran⟩ => ⟨i, hi, Invocation.run_eq_iff.mpr hran⟩⟩

def filesOf (texts : List (String × String)) : Files.Tree :=
  ⟨[], texts.map fun f => ([f.1], .file (Text.Utf8.encode f.2.toList))⟩

/-- What is seen of a run from outside: what it prints, and its code unless an exception ends it. -/
def seen (args : List String) (t : Files.Tree) : Option (String × String × Option Nat) :=
  match run args t with
  | .error _ => none
  | .ok (⟨stdout, stderr, .code n⟩, _) => some (stdout, stderr, some n)
  | .ok (⟨stdout, stderr, .escaped _⟩, _) => some (stdout, stderr, none)

lemma run_of_seen {args : List String} {t : Files.Tree} {stdout stderr : String} {code : Option Nat}
    (h : seen args t = some (stdout, stderr, code)) :
    ∃ exit u, run args t = .ok (⟨stdout, stderr, exit⟩, u) ∧
      ∀ n, exit = .code n ↔ code = some n := by
  unfold seen at h
  split at h
  · cases h
  · next n u hrun =>
    cases h
    exact ⟨.code n, u, hrun, by simp⟩
  · next cause u hrun =>
    cases h
    exact ⟨.escaped cause, u, hrun, by simp⟩

end Lindenmayer.CommandLine
