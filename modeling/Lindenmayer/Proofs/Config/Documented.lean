import Lindenmayer.Proofs.Config.Meaning

/-! The configurations that are accepted: what must hold of each field, if it is there. Nothing but these
fields is looked at, and they may stand in any order and among others. -/

namespace Lindenmayer

/-- The value of a field, if it is there, is as it must be. -/
def Json.Field (v : Json) (path : List String) (holds : Json → Prop) : Prop :=
  ∀ x, v.at? path = some x → holds x

namespace Config

def IsText (v : Json) : Prop := ∃ s, v = .string s

def IsObject (v : Json) : Prop := ∃ ms, v = .object ms

/-- A number that a double is nearest to: a whole number may lie beyond all of them. -/
def IsNumber (v : Json) : Prop := ∃ x, v.number? = some x

def IsRules : Json → Prop
  | .string s => ∃ t, Rules.parse s = .ok t
  | .array vs => (∀ v ∈ vs, IsText v) ∧
    ∃ t, Rules.parse (Text.joinLines (vs.filterMap Json.text?)) = .ok t
  | .object ms => ∀ m ∈ ms, m.1.length = 1 ∧ IsText m.2
  | _ => False

structure DocumentedGrammar (v : Json) : Prop where
  preset : v.Field ["preset"] fun x => ∃ key g, x = .string key ∧ Catalog.find? key = some g
  name : v.Field ["name"] IsText
  seed : v.Field ["seed"] fun x => ∃ s, x = .string s ∧ s ≠ []
  begins : v.at? ["seed"] ≠ none ∨ v.at? ["preset"] ≠ none
  rules : v.Field ["rules"] IsRules
  angle : v.Field ["angle"] IsNumber
  iterations : v.Field ["iterations"] fun x => ∃ n, x = .int n ∧ 0 ≤ n

structure DocumentedStyle (v : Json) : Prop where
  stroke : v.Field ["svg", "style", "stroke"] IsText
  strokeWidth : v.Field ["svg", "style", "stroke_width"] IsNumber
  fill : v.Field ["svg", "style", "fill"] IsText
  linecap : v.Field ["svg", "style", "stroke_linecap"] IsText
  linejoin : v.Field ["svg", "style", "stroke_linejoin"] IsText

structure DocumentedCanvas (v : Json) : Prop where
  width : v.Field ["svg", "width"] fun x => ∃ y, x.number? = some y ∧ 0 < y
  height : v.Field ["svg", "height"] fun x => ∃ y, x.number? = some y ∧ 0 < y
  margin : v.Field ["svg", "margin"] fun x => ∃ y, x.number? = some y ∧ 0 ≤ y
  precision : v.Field ["svg", "precision"] fun x => ∃ n, x = .int n ∧ 0 ≤ n ∧ n ≤ 10
  flip : v.Field ["svg", "flip_y"] fun x => ∃ b, x = .bool b
  group : v.Field ["svg", "style"] IsObject
  style : DocumentedStyle v
  background : v.Field ["svg", "background"] fun x => x = .null ∨ IsText x

structure Documented (v : Json) : Prop where
  root : IsObject v
  grammar : DocumentedGrammar v
  group : v.Field ["svg"] IsObject
  canvas : DocumentedCanvas v

section Nil

variable {v : Json} {path : List String}

@[simp] lemma faultUnless_eq_nil_iff {holds : Bool} {e : Error} :
    faultUnless holds e = [] ↔ holds = true := by
  cases holds <;> simp [faultUnless]

lemma faultsAt_eq_nil_iff {faultsOf : Json → List Error} :
    faultsAt v path faultsOf = [] ↔ v.Field path fun x => faultsOf x = [] := by
  unfold faultsAt Json.Field
  cases v.at? path <;> simp

lemma field_congr {p q : Json → Prop} (h : ∀ x, p x ↔ q x) : v.Field path p ↔ v.Field path q :=
  forall_congr' fun x => imp_congr_right fun _ => h x

lemma field_and {p q : Json → Prop} :
    (v.Field path fun x => p x ∧ q x) ↔ v.Field path p ∧ v.Field path q := by
  simp only [Json.Field, imp_and, forall_and]

lemma kindFaults_string_iff : kindFaults v path .string = [] ↔ v.Field path IsText := by
  refine faultsAt_eq_nil_iff.trans (field_congr fun x => faultUnless_eq_nil_iff.trans ?_)
  cases x <;> simp [Kind.admits, Json.text?, IsText]

lemma kindFaults_object_iff : kindFaults v path .object = [] ↔ v.Field path IsObject := by
  refine faultsAt_eq_nil_iff.trans (field_congr fun x => faultUnless_eq_nil_iff.trans ?_)
  cases x <;> simp [Kind.admits, Json.members?, IsObject]

lemma kindFaults_boolean_iff :
    kindFaults v path .boolean = [] ↔ v.Field path fun x => ∃ b, x = .bool b := by
  refine faultsAt_eq_nil_iff.trans (field_congr fun x => faultUnless_eq_nil_iff.trans ?_)
  cases x <;> simp [Kind.admits, Json.boolean?]

lemma numberFaults_eq_nil_iff : numberFaults v path = [] ↔ v.Field path IsNumber := by
  refine faultsAt_eq_nil_iff.trans (field_congr fun x => ?_)
  cases x <;>
    simp [Kind.faults, Kind.admits, Json.number?, IsNumber, Option.isSome_iff_exists]

lemma valueFaults_eq_nil_iff {α : Type} {read? : Json → Option α} {holds : α → Bool} {e : Error} :
    valueFaults v path read? holds e = [] ↔ v.Field path fun x => (read? x).all holds = true :=
  faultsAt_eq_nil_iff.trans (field_congr fun _ => faultUnless_eq_nil_iff)

lemma bounded_iff (holds : Float → Prop) [DecidablePred holds] {e : Error} :
    numberFaults v path = [] ∧ valueFaults v path Json.number? (holds ·) e = [] ↔
      v.Field path fun x => ∃ y, x.number? = some y ∧ holds y := by
  rw [numberFaults_eq_nil_iff, valueFaults_eq_nil_iff, ← field_and]
  refine field_congr fun x => ?_
  cases hx : x.number? <;> simp [IsNumber, hx]

lemma boundedInteger_iff (holds : Int → Prop) [DecidablePred holds] {e : Error} :
    kindFaults v path .integer = [] ∧ valueFaults v path Json.integer? (holds ·) e = [] ↔
      v.Field path fun x => ∃ n, x = .int n ∧ holds n := by
  rw [kindFaults, faultsAt_eq_nil_iff, valueFaults_eq_nil_iff, ← field_and]
  refine field_congr fun x => ?_
  cases x <;> simp [Kind.faults, Kind.admits, Json.integer?]

lemma seed_iff {e : Error} :
    kindFaults v ["seed"] .string = [] ∧ valueFaults v ["seed"] Json.text? (!·.isEmpty) e = [] ↔
      v.Field ["seed"] fun x => ∃ s, x = .string s ∧ s ≠ [] := by
  rw [kindFaults, faultsAt_eq_nil_iff, valueFaults_eq_nil_iff, ← field_and]
  refine field_congr fun x => ?_
  cases x <;> simp [Kind.faults, Kind.admits, Json.text?, Json.text?]

lemma presetFaults_eq_nil_iff {x : Json} :
    presetFaults x = [] ↔ ∃ key g, x = .string key ∧ Catalog.find? key = some g := by
  cases x <;>
    simp [presetFaults, Kind.faults, Kind.admits, Json.text?, Option.isSome_iff_exists]

lemma textFaults_eq_nil_iff {s : Text} : textFaults s = [] ↔ ∃ t, Rules.parse s = .ok t := by
  unfold textFaults
  cases Rules.parse s <;> simp

lemma stringFaults_eq_nil_iff {field : Text} {x : Json} :
    Kind.string.faults field x = [] ↔ IsText x := by
  cases x <;> simp [Kind.faults, Kind.admits, Json.text?, IsText]

lemma rulesFaults_eq_nil_iff {x : Json} : rulesFaults x = [] ↔ IsRules x := by
  cases x with
  | string s => exact textFaults_eq_nil_iff
  | array vs =>
    have hitems : (vs.zipIdx.flatMap fun y => Kind.string.faults s!"rules[{y.2}]" y.1) = [] ↔
        ∀ v ∈ vs, IsText v := by
      rw [List.flatMap_eq_nil_iff]
      simp only [stringFaults_eq_nil_iff]
      rw [← List.forall_mem_map (f := Prod.fst), List.zipIdx_map_fst]
    rw [rulesFaults, List.append_eq_nil_iff, hitems, textFaults_eq_nil_iff]
    rfl
  | object ms =>
    rw [rulesFaults, List.flatMap_eq_nil_iff]
    simp only [ruleFaults, List.append_eq_nil_iff, faultUnless_eq_nil_iff, beq_iff_eq,
      stringFaults_eq_nil_iff]
    rfl
  | _ => simp [rulesFaults, IsRules]

lemma backgroundFaults_eq_nil_iff {x : Json} :
    backgroundFaults x = [] ↔ x = .null ∨ IsText x := by
  cases x <;> simp [backgroundFaults, Json.background?, Json.text?, IsText]

end Nil

section Documented

variable {v : Json}

lemma grammarFaults_eq_nil_iff : grammarFaults v = [] ↔ DocumentedGrammar v := by
  have hbegins : ((v.at? ["seed"]).isSome || (v.at? ["preset"]).isSome) = true ↔
      v.at? ["seed"] ≠ none ∨ v.at? ["preset"] ≠ none := by
    simp [Option.isSome_iff_ne_none]
  simp only [grammarFaults, seedFaults, List.flatten_cons, List.flatten_nil,
    List.append_eq_nil_iff, and_true, faultUnless_eq_nil_iff, hbegins]
  constructor
  · rintro ⟨hpreset, hname, ⟨hseed, hbegins⟩, hempty, hrules, hangle, hiterations⟩
    exact ⟨(faultsAt_eq_nil_iff.trans (field_congr fun _ => presetFaults_eq_nil_iff)).mp hpreset,
      kindFaults_string_iff.mp hname, seed_iff.mp ⟨hseed, hempty⟩, hbegins,
      (faultsAt_eq_nil_iff.trans (field_congr fun _ => rulesFaults_eq_nil_iff)).mp hrules,
      numberFaults_eq_nil_iff.mp hangle, (boundedInteger_iff (0 ≤ ·)).mp hiterations⟩
  · rintro ⟨hpreset, hname, hseed, hbegins, hrules, hangle, hiterations⟩
    obtain ⟨hseed, hempty⟩ := seed_iff.mpr hseed
    exact ⟨(faultsAt_eq_nil_iff.trans (field_congr fun _ => presetFaults_eq_nil_iff)).mpr hpreset,
      kindFaults_string_iff.mpr hname, ⟨hseed, hbegins⟩, hempty,
      (faultsAt_eq_nil_iff.trans (field_congr fun _ => rulesFaults_eq_nil_iff)).mpr hrules,
      numberFaults_eq_nil_iff.mpr hangle, (boundedInteger_iff (0 ≤ ·)).mpr hiterations⟩

lemma styleFaults_eq_nil_iff : styleFaults v = [] ↔ DocumentedStyle v := by
  simp only [styleFaults, List.flatten_cons, List.flatten_nil, List.append_eq_nil_iff, and_true,
    kindFaults_string_iff, numberFaults_eq_nil_iff]
  exact ⟨fun ⟨hstroke, hwidth, hfill, hcap, hjoin⟩ => ⟨hstroke, hwidth, hfill, hcap, hjoin⟩,
    fun ⟨hstroke, hwidth, hfill, hcap, hjoin⟩ => ⟨hstroke, hwidth, hfill, hcap, hjoin⟩⟩

lemma canvasFaults_eq_nil_iff : canvasFaults v = [] ↔ DocumentedCanvas v := by
  simp only [canvasFaults, List.flatten_cons, List.flatten_nil, List.append_eq_nil_iff, and_true,
    kindFaults_object_iff, kindFaults_boolean_iff, styleFaults_eq_nil_iff, faultsAt_eq_nil_iff,
    backgroundFaults_eq_nil_iff]
  constructor
  · rintro ⟨hwidth, hheight, hwidth', hheight', hmargin, hmargin', hprecision, hprecision', hflip,
      hgroup, hstyle, hbackground⟩
    exact ⟨(bounded_iff (0 < ·)).mp ⟨hwidth, hwidth'⟩, (bounded_iff (0 < ·)).mp ⟨hheight, hheight'⟩,
      (bounded_iff (0 ≤ ·)).mp ⟨hmargin, hmargin'⟩,
      (boundedInteger_iff fun n => 0 ≤ n ∧ n ≤ 10).mp ⟨hprecision, hprecision'⟩, hflip, hgroup,
      hstyle, hbackground⟩
  · rintro ⟨hwidth, hheight, hmargin, hprecision, hflip, hgroup, hstyle, hbackground⟩
    obtain ⟨hwidth, hwidth'⟩ := (bounded_iff (0 < ·)).mpr hwidth
    obtain ⟨hheight, hheight'⟩ := (bounded_iff (0 < ·)).mpr hheight
    obtain ⟨hmargin, hmargin'⟩ := (bounded_iff (0 ≤ ·)).mpr hmargin
    obtain ⟨hprecision, hprecision'⟩ :=
      (boundedInteger_iff fun n => 0 ≤ n ∧ n ≤ 10).mpr hprecision
    exact ⟨hwidth, hheight, hwidth', hheight', hmargin, hmargin', hprecision, hprecision', hflip,
      hgroup, hstyle, hbackground⟩

lemma faults_eq_nil_iff : faults v = [] ↔ Documented v := by
  have hroot : kindFaults v [] .object = [] ↔ IsObject v :=
    kindFaults_object_iff.trans ⟨fun h => h v rfl, fun h _ hx => Option.some.inj hx ▸ h⟩
  simp only [faults, List.flatten_cons, List.flatten_nil, List.append_eq_nil_iff, and_true, hroot,
    grammarFaults_eq_nil_iff, kindFaults_object_iff, canvasFaults_eq_nil_iff]
  exact ⟨fun ⟨hroot, hgrammar, hgroup, hcanvas⟩ => ⟨hroot, hgrammar, hgroup, hcanvas⟩,
    fun ⟨hroot, hgrammar, hgroup, hcanvas⟩ => ⟨hroot, hgrammar, hgroup, hcanvas⟩⟩

end Documented

/-- The fields that are looked at. -/
def fields : List (List String) :=
  [["preset"], ["name"], ["seed"], ["rules"], ["angle"], ["iterations"], ["svg", "width"],
    ["svg", "height"], ["svg", "margin"], ["svg", "precision"], ["svg", "flip_y"],
    ["svg", "background"], ["svg", "style", "stroke"], ["svg", "style", "stroke_width"],
    ["svg", "style", "fill"], ["svg", "style", "stroke_linecap"],
    ["svg", "style", "stroke_linejoin"]]

/-- Where the fields are: in the whole configuration, and in two of its members. -/
def groups : List (List String) := [[], ["svg"], ["svg", "style"]]

/-- Two values that have the same fields. What else there is in them, and in which order, is open. -/
structure Agree (v w : Json) : Prop where
  field : ∀ path ∈ fields, v.at? path = w.at? path
  group : ∀ path ∈ groups,
    (v.at? path).map Kind.object.admits = (w.at? path).map Kind.object.admits

namespace Agree

variable {v w : Json}

lemma kindFaults_eq (h : Agree v w) (path : List String) (hpath : path ∈ groups) :
    kindFaults v path .object = kindFaults w path .object := by
  have hadmits (u : Json) : kindFaults u path .object =
      ((u.at? path).map Kind.object.admits).elim [] fun holds =>
        faultUnless holds (.wrongKind (fieldName path) .object) := by
    rw [kindFaults, faultsAt]
    cases u.at? path <;> rfl
  rw [hadmits, hadmits, h.group path hpath]

lemma faults_eq (h : Agree v w) : faults v = faults w := by
  have hfield := h.field
  simp only [fields, List.forall_mem_cons] at hfield
  obtain ⟨hpreset, hname, hseed, hrules, hangle, hiterations, hwidth, hheight, hmargin, hprecision,
    hflip, hbackground, hstroke, hstrokeWidth, hfill, hlinecap, hlinejoin, -⟩ := hfield
  have hgrammar : grammarFaults v = grammarFaults w := by
    simp only [grammarFaults, seedFaults, kindFaults, numberFaults, valueFaults, faultsAt, hpreset,
      hname, hseed, hrules, hangle, hiterations]
  have hstyle : styleFaults v = styleFaults w := by
    simp only [styleFaults, kindFaults, numberFaults, faultsAt, hstroke, hstrokeWidth, hfill,
      hlinecap, hlinejoin]
  have hcanvas : canvasFaults v = canvasFaults w := by
    rw [canvasFaults, canvasFaults, h.kindFaults_eq ["svg", "style"] (by decide),
      hstyle]
    simp only [kindFaults, numberFaults, valueFaults, faultsAt, hwidth, hheight, hmargin,
      hprecision, hflip, hbackground]
  rw [faults, faults, h.kindFaults_eq [] (by decide),
    h.kindFaults_eq ["svg"] (by decide), hgrammar, hcanvas]

lemma preset?_eq (h : Agree v w) : preset? v = preset? w := by
  rw [preset?, preset?, h.field ["preset"] (by simp [fields])]

lemma given_eq (h : Agree v w) {α : Type} {path : List String} (hpath : path ∈ fields)
    {read? : Json → Option α} {absent a b : Option α} (ha : given v path read? absent = a)
    (hb : given w path read? absent = b) : a = b := by
  rw [← ha, ← hb, given, given, h.field path hpath]

lemma value_eq (h : Agree v w) {α : Type} {path : List String} (hpath : path ∈ fields)
    {read? : Json → Option α} {absent : Option α} {a b : α}
    (ha : given v path read? absent = some a) (hb : given w path read? absent = some b) : a = b :=
  Option.some.inj (h.given_eq hpath ha hb)

lemma grammar_eq (h : Agree v w) {g g' : Grammar} (hg : SaysGrammar v g) (hg' : SaysGrammar w g') :
    g = g' := by
  obtain ⟨hname, hseed, hrules, hangle, hiterations⟩ := hg
  rw [h.preset?_eq] at hname hseed hrules hangle hiterations
  obtain ⟨rules, seed, angle, iterations, name⟩ := g
  obtain ⟨rules', seed', angle', iterations', name'⟩ := g'
  obtain rfl := h.given_eq (by decide) hname hg'.name
  obtain rfl := h.value_eq (by decide) hseed hg'.seed
  obtain rfl := h.value_eq (by decide) hrules hg'.rules
  obtain rfl := h.value_eq (by decide) hangle hg'.angle
  obtain rfl := h.given_eq (by decide) hiterations hg'.iterations
  rfl

lemma style_eq (h : Agree v w) {s s' : Svg.Style Text} (hs : SaysStyle v s) (hs' : SaysStyle w s') :
    s = s' := by
  obtain ⟨stroke, width, fill, linecap, linejoin⟩ := s
  obtain ⟨stroke', width', fill', linecap', linejoin'⟩ := s'
  obtain rfl := h.value_eq (by decide) hs.stroke hs'.stroke
  obtain rfl := h.value_eq (by decide) hs.strokeWidth hs'.strokeWidth
  obtain rfl := h.value_eq (by decide) hs.fill hs'.fill
  obtain rfl := h.value_eq (by decide) hs.linecap hs'.linecap
  obtain rfl := h.value_eq (by decide) hs.linejoin hs'.linejoin
  rfl

lemma canvas_eq (h : Agree v w) {s s' : Svg.Canvas Text} (hs : SaysCanvas v s)
    (hs' : SaysCanvas w s') : s = s' := by
  obtain ⟨⟨width, height, margin, flip⟩, precision, style, background⟩ := s
  obtain ⟨⟨width', height', margin', flip'⟩, precision', style', background'⟩ := s'
  obtain rfl := h.value_eq (by decide) hs.width hs'.width
  obtain rfl := h.value_eq (by decide) hs.height hs'.height
  obtain rfl := h.value_eq (by decide) hs.margin hs'.margin
  obtain rfl := h.value_eq (by decide) hs.precision hs'.precision
  obtain rfl := h.value_eq (by decide) hs.flip hs'.flip
  obtain rfl := h.style_eq hs.style hs'.style
  obtain rfl := h.value_eq (by decide) hs.background hs'.background
  rfl

lemma config_eq (h : Agree v w) {c d : Config} (hc : Says v c) (hd : Says w d) : c = d := by
  obtain ⟨grammar, canvas⟩ := c
  obtain ⟨grammar', canvas'⟩ := d
  obtain rfl := h.grammar_eq hc.grammar hd.grammar
  obtain rfl := h.canvas_eq hc.canvas hd.canvas
  rfl

lemma ofJson_eq (h : Agree v w) : ofJson v = ofJson w :=
  (finds_ofJson v).eq (h.faults_eq ▸ finds_ofJson w) fun _ _ => h.config_eq

end Agree

lemma Says.unique {v : Json} {c d : Config} (hc : Says v c) (hd : Says v d) : c = d :=
  Agree.config_eq ⟨fun _ _ => rfl, fun _ _ => rfl⟩ hc hd

/-- A configuration is accepted if and only if it is as documented. It then has in each field the value
that stands there, or the one for a field left out. Otherwise the first of its faults is reported. Nothing
that is not among the fields makes a difference. -/
theorem ofJson_documented (v : Json) :
    ((∃ c, ofJson v = .ok c) ↔ Documented v) ∧
    (∀ c, ofJson v = .ok c → Says v c) ∧
    (∀ e, ofJson v = .error e ↔ (faults v).head? = some e) ∧
    ∀ w, Agree v w → ofJson w = ofJson v := by
  have hfinds := finds_ofJson v
  exact ⟨hfinds.eq_ok_iff.trans faults_eq_nil_iff, fun c => hfinds.of_eq_ok,
    fun e => hfinds.eq_error_iff, fun w h => h.ofJson_eq.symm⟩

/-- Two faults, and the one that is reported is not the one that comes first in the text. -/
def flatTree : Json :=
  .object [("svg", .object [("width", .int 0)]), ("angle", .bool true), ("seed", .string "f")]

def annotatedTree : Json :=
  .object [("seed", .string "f"), ("angle", .bool true), ("comment", .string "to do"),
    ("svg", .object [("units", .string "px"), ("width", .int 0)])]

def shortKoch : Json := .object [("preset", .string "koch"), ("iterations", .int 1)]

theorem ofJson_flatTree :
    faults flatTree = [.wrongKind "angle" .number, .notPositive "svg.width"] ∧
      ofJson flatTree = .error (.wrongKind "angle" .number) ∧ Agree flatTree annotatedTree ∧
      ofJson annotatedTree = .error (.wrongKind "angle" .number) ∧
      ∃ c, ofJson shortKoch = .ok c ∧ Says shortKoch c := by
  have hfaults : faults flatTree = [.wrongKind "angle" .number, .notPositive "svg.width"] := by
    decide +kernel
  have hagree : Agree flatTree annotatedTree := ⟨by decide +kernel, by decide +kernel⟩
  have hshort : Documented shortKoch := faults_eq_nil_iff.mp (by decide +kernel)
  obtain ⟨-, -, herror, hsame⟩ := ofJson_documented flatTree
  obtain ⟨haccepted, hsays, -⟩ := ofJson_documented shortKoch
  have hflat : ofJson flatTree = .error (.wrongKind "angle" .number) :=
    (herror _).mpr (by rw [hfaults]; rfl)
  obtain ⟨c, hc⟩ := haccepted.mpr hshort
  exact ⟨hfaults, hflat, hagree, (hsame _ hagree).trans hflat, c, hc, hsays c hc⟩

end Config

end Lindenmayer
