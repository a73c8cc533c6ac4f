import Lindenmayer.Proofs.Config.Oversized
import Lindenmayer.Proofs.Rules.Entries

/-! The faults of a configuration, all of them, each found in the value of one field. They are listed in
the order of the fields, and reading finds the first of the list. Where there is none, it gives each field
the value that stands in the configuration, or the one that stands for a field left out. -/

namespace Lindenmayer

namespace Json

def number? : Json → Option Float
  | .float x => some x
  | .int n => Binary64.ofInt? n
  | _ => none

def integer? : Json → Option Int
  | .int n => some n
  | _ => none

def text? : Json → Option Text
  | .string s => some s
  | _ => none

def boolean? : Json → Option Bool
  | .bool b => some b
  | _ => none

def members? : Json → Option (List (Text × Json))
  | .object ms => some ms
  | _ => none

def background? : Json → Option (Option Text)
  | .null => some none
  | v => v.text?.map some

def rule? (m : Text × Json) : Option (Word × Word) :=
  if m.1.length = 1 then m.2.text?.map fun w => (m.1, w) else none

def rules? : Json → Option RuleTable
  | .string s => (Rules.parse s).toOption
  | .array vs => (vs.mapM text?).bind fun ls => (Rules.parse (Text.joinLines ls)).toOption
  | .object ms => (ms.mapM rule?).map .ofList
  | _ => none

end Json

namespace Config

def Kind.admits : Kind → Json → Bool
  | .number, .int _ => true
  | .number, .float _ => true
  | .integer, v => v.integer?.isSome
  | .string, v => v.text?.isSome
  | .boolean, v => v.boolean?.isSome
  | .object, v => v.members?.isSome
  | _, _ => false

def fieldName : List String → String
  | [] => "root"
  | path => ".".intercalate path

def faultUnless (holds : Bool) (e : Error) : List Error := if holds then [] else [e]

/-- The faults of the value at a place, where nothing is wrong with a field that is left out. -/
def faultsAt (v : Json) (path : List String) (faultsOf : Json → List Error) : List Error :=
  (v.at? path).elim [] faultsOf

def Kind.faults (kind : Kind) (field : Text) (v : Json) : List Error :=
  faultUnless (kind.admits v) (.wrongKind field kind)

def kindFaults (v : Json) (path : List String) (kind : Kind) : List Error :=
  faultsAt v path (kind.faults (fieldName path))

def numberFaults (v : Json) (path : List String) : List Error :=
  faultsAt v path fun x => Kind.number.faults (fieldName path) x ++
    faultUnless (!Kind.number.admits x || x.number?.isSome) .numberTooLarge

/-- The fault of a value that is of the right kind, and not what it must be. -/
def valueFaults {α : Type} (v : Json) (path : List String) (read? : Json → Option α)
    (holds : α → Bool) (e : Error) : List Error :=
  faultsAt v path fun x => faultUnless ((read? x).all holds) e

def presetFaults (v : Json) : List Error :=
  Kind.string.faults "preset" v ++
    v.text?.elim [] fun key => faultUnless (Catalog.find? key).isSome (.unknownPreset key)

def seedFaults (v : Json) : List Error :=
  kindFaults v ["seed"] .string ++
    faultUnless ((v.at? ["seed"]).isSome || (v.at? ["preset"]).isSome) .seedMissing

def textFaults (s : Text) : List Error :=
  match Rules.parse s with
  | .ok _ => []
  | .error cause => [.ruleText cause]

def ruleFaults (m : Text × Json) : List Error :=
  faultUnless (m.1.length == 1) .ruleKey ++
    Kind.string.faults (.ofString "rules['" ++ m.1 ++ .ofString "']") m.2

def rulesFaults : Json → List Error
  | .string s => textFaults s
  | .array vs =>
    (vs.zipIdx.flatMap fun x => Kind.string.faults s!"rules[{x.2}]" x.1) ++
      textFaults (Text.joinLines (vs.filterMap Json.text?))
  | .object ms => ms.flatMap ruleFaults
  | _ => [.wrongKind "rules" .object]

def backgroundFaults (v : Json) : List Error :=
  faultUnless v.background?.isSome (.wrongKind "svg.background" .string)

def grammarFaults (v : Json) : List Error :=
  List.flatten [
    faultsAt v ["preset"] presetFaults,
    kindFaults v ["name"] .string,
    seedFaults v,
    valueFaults v ["seed"] Json.text? (!·.isEmpty) .seedEmpty,
    faultsAt v ["rules"] rulesFaults,
    numberFaults v ["angle"],
    kindFaults v ["iterations"] .integer,
    valueFaults v ["iterations"] Json.integer? (0 ≤ ·) .negativeIterations]

def styleFaults (v : Json) : List Error :=
  List.flatten [
    kindFaults v ["svg", "style", "stroke"] .string,
    numberFaults v ["svg", "style", "stroke_width"],
    kindFaults v ["svg", "style", "fill"] .string,
    kindFaults v ["svg", "style", "stroke_linecap"] .string,
    kindFaults v ["svg", "style", "stroke_linejoin"] .string]

def canvasFaults (v : Json) : List Error :=
  List.flatten [
    numberFaults v ["svg", "width"],
    numberFaults v ["svg", "height"],
    valueFaults v ["svg", "width"] Json.number? (0 < ·) (.notPositive "svg.width"),
    valueFaults v ["svg", "height"] Json.number? (0 < ·) (.notPositive "svg.height"),
    numberFaults v ["svg", "margin"],
    valueFaults v ["svg", "margin"] Json.number? (0 ≤ ·) .negativeMargin,
    kindFaults v ["svg", "precision"] .integer,
    valueFaults v ["svg", "precision"] Json.integer? (fun n => 0 ≤ n ∧ n ≤ 10) .precisionRange,
    kindFaults v ["svg", "flip_y"] .boolean,
    kindFaults v ["svg", "style"] .object,
    styleFaults v,
    faultsAt v ["svg", "background"] backgroundFaults]

def faults (v : Json) : List Error :=
  List.flatten [kindFaults v [] .object, grammarFaults v, kindFaults v ["svg"] .object,
    canvasFaults v]

/-- Reading finds the first of the faults or, where there is none, a value of which `P` holds. -/
inductive Finds {α : Type} (P : α → Prop) (faults : List Error) : Except Error α → Prop
  | ok {a} : faults = [] → P a → Finds P faults (.ok a)
  | error {e} : faults.head? = some e → Finds P faults (.error e)

namespace Finds

variable {α β : Type} {P Q : α → Prop} {R : β → Prop} {x : Except Error α} {fs gs : List Error}

lemma mono (h : Finds P fs x) (hPQ : ∀ a, P a → Q a) : Finds Q fs x := by
  cases h with
  | ok hfs ha => exact .ok hfs (hPQ _ ha)
  | error he => exact .error he

lemma eq_ok_iff (h : Finds P fs x) : (∃ a, x = .ok a) ↔ fs = [] := by
  cases h with
  | ok hfs _ => exact iff_of_true ⟨_, rfl⟩ hfs
  | error he =>
    refine iff_of_false nofun ?_
    rintro rfl
    cases he

lemma of_eq_ok {a : α} (h : Finds P fs x) (hx : x = .ok a) : P a := by
  cases h with
  | ok _ ha => exact Except.ok.inj hx ▸ ha
  | error => cases hx

lemma eq_error_iff {e : Error} (h : Finds P fs x) : x = .error e ↔ fs.head? = some e := by
  cases h with
  | ok hfs _ => simp [hfs]
  | error he => simp [he]

/-- What is found is determined by the faults and by the value, if there is only one. -/
lemma eq {y : Except Error α} (hx : Finds P fs x) (hy : Finds Q fs y)
    (h : ∀ a b, P a → Q b → a = b) : x = y := by
  cases hx with
  | ok hfs ha =>
    cases hy with
    | ok _ hb => exact congrArg Except.ok (h _ _ ha hb)
    | error he => exact nomatch hfs ▸ he
  | error he =>
    cases hy with
    | ok hfs _ => exact nomatch hfs ▸ he
    | error he' => exact congrArg Except.error (Option.some.inj (he.symm.trans he'))

lemma bind {f : α → Except Error β} (hx : Finds P fs x) (hf : ∀ a, P a → Finds R gs (f a)) :
    Finds R (fs ++ gs) (x >>= f) := by
  cases hx with
  | ok hfs ha =>
    rw [hfs]
    exact hf _ ha
  | error he =>
    refine .error ?_
    rw [List.head?_append, he]
    rfl

lemma bind_total {f : α → Except Error β} (hx : Finds P fs x) (hf : ∀ a, P a → Finds R [] (f a)) :
    Finds R fs (x >>= f) := by
  rw [← List.append_nil fs]
  exact hx.bind hf

lemma map (h : Finds P fs x) (f : α → β) : Finds (fun b => ∃ a, P a ∧ f a = b) fs (x.map f) := by
  cases h with
  | ok hfs ha => exact .ok hfs ⟨_, ha, rfl⟩
  | error he => exact .error he

lemma require (holds : Bool) (e : Error) :
    Finds (fun _ => holds = true) (faultUnless holds e) (require holds e) := by
  cases holds with
  | false => exact .error rfl
  | true => exact .ok rfl rfl

end Finds

section Kinds

variable (field : Text) (v : Json)

lemma finds_asInteger : Finds (v.integer? = some ·) (Kind.integer.faults field v) (asInteger field v) := by
  cases v with
  | int n => exact .ok rfl rfl
  | _ => exact .error rfl

lemma finds_asString : Finds (v.text? = some ·) (Kind.string.faults field v) (asString field v) := by
  cases v with
  | string s => exact .ok rfl rfl
  | _ => exact .error rfl

lemma finds_asBoolean :
    Finds (v.boolean? = some ·) (Kind.boolean.faults field v) (asBoolean field v) := by
  cases v with
  | bool b => exact .ok rfl rfl
  | _ => exact .error rfl

lemma finds_asObject :
    Finds (v.members? = some ·) (Kind.object.faults field v) (asObject field v) := by
  cases v with
  | object ms => exact .ok rfl rfl
  | _ => exact .error rfl

lemma finds_asNumber : Finds (v.number? = some ·) (Kind.number.faults field v ++
    faultUnless (!Kind.number.admits v || v.number?.isSome) .numberTooLarge) (asNumber field v) := by
  cases v with
  | float x => exact .ok rfl rfl
  | int n =>
    have hnumber : (Json.int n).number? = Binary64.ofInt? n := rfl
    cases hn : Binary64.ofInt? n with
    | none =>
      simp only [asNumber, hn]
      exact .error (by simp [Kind.faults, Kind.admits, faultUnless, hnumber, hn])
    | some x =>
      simp only [asNumber, hn]
      exact .ok (by simp [Kind.faults, Kind.admits, faultUnless, hnumber, hn]) (hnumber.trans hn)
  | _ => exact .error rfl

end Kinds

/-- The value of a field: the one that stands in the configuration, or else the one for a field left
out. -/
def given {α : Type} (v : Json) (path : List String) (read? : Json → Option α) (absent : Option α) :
    Option α :=
  (v.at? path).elim absent read?

section Member

variable {α : Type} {v : Json} {path : List String} {ms : Members} {key field : String}
  {read? : Json → Option α} {absent : α}

lemma finds_member {read : Json → Except Error α} {faultsOf : Json → List Error}
    (hat : v.at? path = ms.lookup (.ofString key))
    (hread : ∀ x, Finds (read? x = some ·) (faultsOf x) (read x)) :
    Finds (given v path read? (some absent) = some ·) (faultsAt v path faultsOf)
      (member ms key read absent) := by
  unfold given faultsAt member
  rw [hat]
  cases ms.lookup (.ofString key) with
  | none => exact .ok rfl rfl
  | some x => exact hread x

lemma finds_field {read : Text → Json → Except Error α} {kind : Kind}
    (hat : v.at? path = ms.lookup (.ofString key)) (hfield : fieldName path = field)
    (hread : ∀ x, Finds (read? x = some ·) (kind.faults field x) (read field x)) :
    Finds (given v path read? (some absent) = some ·) (kindFaults v path kind)
      (member ms key (read field) absent) := by
  rw [kindFaults, hfield]
  exact finds_member hat hread

lemma finds_number {absent : Float} (hat : v.at? path = ms.lookup (.ofString key))
    (hfield : fieldName path = field) :
    Finds (given v path Json.number? (some absent) = some ·) (numberFaults v path)
      (member ms key (asNumber field) absent) := by
  rw [numberFaults, hfield]
  exact finds_member hat (finds_asNumber field)

lemma finds_value {absent : Option α} {a : α} (holds : α → Bool) (e : Error)
    (h : given v path read? absent = some a) (habsent : ∀ b ∈ absent, holds b = true) :
    Finds (fun _ => holds a = true) (valueFaults v path read? holds e) (require (holds a) e) := by
  unfold given at h
  unfold valueFaults faultsAt
  cases hat : v.at? path with
  | none =>
    rw [hat] at h
    have ha := habsent a h
    rw [ha]
    exact .ok rfl rfl
  | some x =>
    rw [hat] at h
    have hx : read? x = some a := h
    simp only [Option.elim_some, hx, Option.all_some]
    exact .require _ e

lemma finds_bound {a : α} (holds : α → Bool) (e : Error)
    (h : given v path read? (some absent) = some a) (habsent : holds absent = true) :
    Finds (fun _ => holds a = true) (valueFaults v path read? holds e) (require (holds a) e) :=
  finds_value holds e h fun _ hb => Option.some.inj hb ▸ habsent

end Member

section Rules

lemma finds_rulesOfText (s : Text) :
    Finds ((Rules.parse s).toOption = some ·) (textFaults s) (rulesOfText s) := by
  unfold textFaults rulesOfText
  cases Rules.parse s with
  | error cause => exact .error rfl
  | ok t => exact .ok rfl rfl

lemma finds_readRuleLines (index : Nat) (vs : List Json) :
    Finds (fun ls => vs.mapM Json.text? = some ls ∧ vs.filterMap Json.text? = ls)
      ((vs.zipIdx index).flatMap fun x => Kind.string.faults s!"rules[{x.2}]" x.1)
      (readRuleLines index vs) := by
  induction vs generalizing index with
  | nil => exact .ok rfl ⟨rfl, rfl⟩
  | cons v vs ih =>
    rw [List.zipIdx_cons, List.flatMap_cons, readRuleLines]
    refine (finds_asString _ v).bind fun line hline => (ih (index + 1)).bind_total ?_
    rintro ls ⟨hls, hls'⟩
    exact .ok rfl ⟨by simp [hline, hls], by simp [hline, hls']⟩

lemma finds_readRuleMembers (t : RuleTable) (ms : Members) :
    Finds (fun u => ∃ es, ms.mapM Json.rule? = some es ∧ t.insertAll es = u) (ms.flatMap ruleFaults)
      (readRuleMembers t ms) := by
  induction ms generalizing t with
  | nil => exact .ok rfl ⟨[], rfl, rfl⟩
  | cons m ms ih =>
    obtain ⟨k, v⟩ := m
    rw [List.flatMap_cons, ruleFaults, List.append_assoc, readRuleMembers]
    refine (Finds.require _ _).bind fun _ hk => (finds_asString _ v).bind fun s hs => ?_
    refine (ih _).mono ?_
    rintro u ⟨es, hes, rfl⟩
    have hrule : Json.rule? (k, v) = some (k, s) := by
      rw [Json.rule?, if_pos (beq_iff_eq.mp hk), hs, Option.map_some]
    exact ⟨(k, s) :: es, by simp [hrule, hes], rfl⟩

lemma finds_readRules (v : Json) : Finds (v.rules? = some ·) (rulesFaults v) (readRules v) := by
  cases v with
  | string s => exact finds_rulesOfText s
  | array vs =>
    refine (finds_readRuleLines 0 vs).bind ?_
    rintro ls ⟨hls, rfl⟩
    refine (finds_rulesOfText _).mono fun t ht => ?_
    rw [Json.rules?, hls]
    exact ht
  | object ms =>
    refine (finds_readRuleMembers .empty ms).mono ?_
    rintro t ⟨es, hes, rfl⟩
    rw [Json.rules?, hes]
    rfl
  | _ => exact .error rfl

end Rules

end Config

end Lindenmayer
