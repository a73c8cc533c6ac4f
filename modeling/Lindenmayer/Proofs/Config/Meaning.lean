import Lindenmayer.Proofs.Config.Faults

/-! What a configuration means. It is read field by field, and each reader finds the first fault of its
fields, or the values that they have. -/

namespace Lindenmayer

namespace Json

lemma at?_append (v : Json) (p q : List String) : v.at? (p ++ q) = (v.at? p).bind (·.at? q) := by
  induction p generalizing v with
  | nil => rfl
  | cons k ks ih =>
    cases v with
    | object ms =>
      change (ms.lookup (.ofString k)).bind (·.at? (ks ++ q)) =
        ((ms.lookup (.ofString k)).bind (·.at? ks)).bind (·.at? q)
      rw [Option.bind_assoc]
      exact congrArg _ (funext fun x => ih x)
    | _ => rfl

lemma at?_object (ms : List (Text × Json)) (k : String) :
    (object ms).at? [k] = ms.lookup (.ofString k) :=
  Option.bind_fun_some _

end Json

namespace Config

lemma at?_of_given {v : Json} {path : List String} {ms : Members}
    (h : given v path Json.members? (some []) = some ms) (k : String) :
    v.at? (path ++ [k]) = ms.lookup (.ofString k) := by
  unfold given at h
  rw [Json.at?_append]
  cases hat : v.at? path with
  | none =>
    rw [hat] at h
    obtain rfl := Option.some.inj h
    rfl
  | some x =>
    rw [hat] at h
    cases x with
    | object ms' =>
      obtain rfl := Option.some.inj h
      exact Json.at?_object ms' k
    | _ => cases h

def preset? (v : Json) : Option Grammar :=
  (v.at? ["preset"]).bind fun x => x.text?.bind Catalog.find?

/-- A grammar has the values that stand in a configuration, or else those of the curve that it begins
with, or else those of a field left out. -/
structure SaysGrammar (v : Json) (g : Grammar) : Prop where
  name : given v ["name"] Json.text? (some (((preset? v).bind (·.name)).getD "L-System")) = g.name
  seed : given v ["seed"] Json.text? ((preset? v).map (·.seed)) = some g.seed
  rules : given v ["rules"] Json.rules? (some (((preset? v).map (·.rules)).getD .empty)) =
    some g.rules
  angle : given v ["angle"] Json.number? (some (((preset? v).map (·.angle)).getD 90)) = some g.angle
  iterations : given v ["iterations"] Json.integer?
    (some (((preset? v).bind (·.iterations)).getD 0)) = g.iterations

structure SaysStyle (v : Json) (style : Svg.Style Text) : Prop where
  stroke : given v ["svg", "style", "stroke"] Json.text? (some "#000") = some style.stroke
  strokeWidth : given v ["svg", "style", "stroke_width"] Json.number? (some 1) =
    some style.strokeWidth
  fill : given v ["svg", "style", "fill"] Json.text? (some "none") = some style.fill
  linecap : given v ["svg", "style", "stroke_linecap"] Json.text? (some "round") =
    some style.linecap
  linejoin : given v ["svg", "style", "stroke_linejoin"] Json.text? (some "round") =
    some style.linejoin

structure SaysCanvas (v : Json) (canvas : Svg.Canvas Text) : Prop where
  width : given v ["svg", "width"] Json.number? (some 800) = some canvas.surface.width
  height : given v ["svg", "height"] Json.number? (some 600) = some canvas.surface.height
  margin : given v ["svg", "margin"] Json.number? (some 10) = some canvas.surface.margin
  precision : given v ["svg", "precision"] Json.integer? (some 3) = some canvas.precision
  flip : given v ["svg", "flip_y"] Json.boolean? (some true) = some canvas.surface.flip
  style : SaysStyle v canvas.style
  background : given v ["svg", "background"] Json.background? (some none) = some canvas.background

structure Says (v : Json) (c : Config) : Prop where
  grammar : SaysGrammar v c.grammar
  canvas : SaysCanvas v c.canvas

lemma sound_of_find? {key : Text} {g : Grammar} (h : Catalog.find? key = some g) :
    g.seed ≠ [] ∧ 0 ≤ g.iterations.getD 0 := by
  have hall : ∀ p ∈ Catalog.all, p.2.seed ≠ [] ∧ 0 ≤ p.2.iterations.getD 0 := by decide
  obtain ⟨k, hmem, -⟩ := Catalog.mem_of_find? h
  exact hall (k, g) hmem

def presetOf? (v : Json) : Option (Option Grammar) := (v.text?.bind Catalog.find?).map some

lemma finds_readPreset (v : Json) : Finds (presetOf? v = some ·) (presetFaults v) (readPreset v) := by
  cases v with
  | string key =>
    have hof : presetOf? (.string key) = (Catalog.find? key).map some := rfl
    have hfaults : presetFaults (.string key) =
      faultUnless (Catalog.find? key).isSome (.unknownPreset key) := rfl
    simp only [hof, hfaults, readPreset, asString, bind, Except.bind]
    cases Catalog.find? key with
    | none => exact .error rfl
    | some g => exact .ok rfl rfl
  | _ => exact .error rfl

section Grammar

variable {v : Json} {ms : Members} {base : Option Grammar}

lemma preset?_of_given (h : given v ["preset"] presetOf? (some none) = some base) :
    preset? v = base ∧ base.isSome = (v.at? ["preset"]).isSome ∧
      ∀ g ∈ base, g.seed ≠ [] ∧ 0 ≤ g.iterations.getD 0 := by
  unfold given at h
  unfold preset?
  cases hat : v.at? ["preset"] with
  | none =>
    rw [hat] at h
    obtain rfl := Option.some.inj h
    exact ⟨rfl, rfl, nofun⟩
  | some x =>
    rw [hat] at h
    obtain ⟨g, hg, rfl⟩ := Option.map_eq_some_iff.mp (show presetOf? x = some base from h)
    refine ⟨hg, rfl, fun g' hg' => ?_⟩
    obtain rfl := Option.some.inj hg'
    obtain ⟨key, -, hkey⟩ := Option.bind_eq_some_iff.mp hg
    exact sound_of_find? hkey

lemma finds_readSeed (hat : ∀ k, v.at? [k] = ms.lookup (.ofString k)) (hbase : preset? v = base)
    (hsome : base.isSome = (v.at? ["preset"]).isSome) :
    Finds (given v ["seed"] Json.text? ((preset? v).map (·.seed)) = some ·) (seedFaults v)
      (readSeed base ms) := by
  unfold given seedFaults kindFaults faultsAt readSeed
  rw [← hsome, hbase, hat]
  cases ms.lookup (.ofString "seed") with
  | none =>
    cases base with
    | none => exact .error rfl
    | some g => exact .ok rfl rfl
  | some x =>
    rw [faultUnless, if_pos (by simp), List.append_nil]
    exact finds_asString "seed" x

lemma finds_readGrammar (hat : ∀ k, v.at? [k] = ms.lookup (.ofString k)) :
    Finds (SaysGrammar v) (grammarFaults v) (readGrammar ms) := by
  refine (finds_member (hat _) finds_readPreset).bind fun base hpreset => ?_
  obtain ⟨rfl, hsome, hcatalog⟩ := preset?_of_given hpreset
  have hseedOf : ∀ seed ∈ (preset? v).map (·.seed), (!seed.isEmpty) = true := by
    intro seed hmem
    obtain ⟨g, hg, rfl⟩ := Option.map_eq_some_iff.mp hmem
    simpa using (hcatalog g hg).1
  have hiterationsOf : 0 ≤ ((preset? v).bind (·.iterations)).getD 0 := by
    cases hbase : preset? v with
    | none => exact Int.le_refl 0
    | some g => exact (hcatalog g hbase).2
  refine (finds_field (hat _) rfl (finds_asString _)).bind fun name hname => ?_
  refine (finds_readSeed hat rfl hsome).bind fun seed hseed => ?_
  refine (finds_value (!·.isEmpty) _ hseed hseedOf).bind fun _ _ => ?_
  refine (finds_member (hat _) finds_readRules).bind fun rules hrules => ?_
  refine (finds_number (hat _) rfl).bind fun angle hangle => ?_
  refine (finds_field (hat _) rfl (finds_asInteger _)).bind fun iterations hiterations => ?_
  refine (finds_bound (0 ≤ ·) _ hiterations (decide_eq_true hiterationsOf)).bind fun _ _ => ?_
  exact .ok rfl ⟨hname, hseed, hrules, hangle, hiterations⟩

end Grammar

section Canvas

variable {v : Json} {ms : Members}

lemma finds_readBackground (v : Json) :
    Finds (v.background? = some ·) (backgroundFaults v) (readBackground v) := by
  cases v with
  | null | string s => exact .ok rfl rfl
  | _ => exact .error rfl

lemma finds_readStyle (hat : ∀ k, v.at? ["svg", "style", k] = ms.lookup (.ofString k)) :
    Finds (SaysStyle v) (styleFaults v) (readStyle ms) := by
  refine (finds_field (hat _) rfl (finds_asString _)).bind fun stroke hstroke => ?_
  refine (finds_number (hat _) rfl).bind fun width hwidth => ?_
  refine (finds_field (hat _) rfl (finds_asString _)).bind fun fill hfill => ?_
  refine (finds_field (hat _) rfl (finds_asString _)).bind fun linecap hlinecap => ?_
  refine (finds_field (hat _) rfl (finds_asString _)).bind fun linejoin hlinejoin => ?_
  exact .ok rfl ⟨hstroke, hwidth, hfill, hlinecap, hlinejoin⟩

lemma finds_readCanvas (hat : ∀ k, v.at? ["svg", k] = ms.lookup (.ofString k)) :
    Finds (SaysCanvas v) (canvasFaults v) (readCanvas ms) := by
  refine (finds_number (hat _) rfl).bind fun width hwidth => ?_
  refine (finds_number (hat _) rfl).bind fun height hheight => ?_
  refine (finds_bound (0 < ·) _ hwidth rfl).bind fun _ _ => ?_
  refine (finds_bound (0 < ·) _ hheight rfl).bind fun _ _ => ?_
  refine (finds_number (hat _) rfl).bind fun margin hmargin => ?_
  refine (finds_bound (0 ≤ ·) _ hmargin rfl).bind fun _ _ => ?_
  refine (finds_field (hat _) rfl (finds_asInteger _)).bind fun precision hprecision => ?_
  refine (finds_bound (fun n => 0 ≤ n ∧ n ≤ 10) _ hprecision rfl).bind fun _ _ => ?_
  refine (finds_field (hat _) rfl (finds_asBoolean _)).bind fun flip hflip => ?_
  refine (finds_field (hat _) rfl (finds_asObject _)).bind fun styleMembers hstyle => ?_
  refine (finds_readStyle (at?_of_given hstyle)).bind fun style hstyle => ?_
  refine (finds_member (hat _) finds_readBackground).bind fun background hbackground => ?_
  exact .ok rfl ⟨hwidth, hheight, hmargin, hprecision, hflip, hstyle, hbackground⟩

end Canvas

lemma finds_ofJson (v : Json) : Finds (Says v) (faults v) (ofJson v) := by
  refine (finds_asObject "root" v).bind fun ms hms => ?_
  have hroot : given v [] Json.members? (some []) = some ms := hms
  refine (finds_readGrammar (at?_of_given hroot)).bind fun grammar hgrammar => ?_
  refine (finds_field (at?_of_given hroot _) rfl (finds_asObject _)).bind fun svg hsvg => ?_
  refine (finds_readCanvas (at?_of_given hsvg)).bind fun canvas hcanvas => ?_
  exact .ok rfl ⟨hgrammar, hcanvas⟩

end Config

end Lindenmayer
