import Lindenmayer.Proofs.Config.Reader
import Lindenmayer.Proofs.Text.Symbol

/-! Numbers that no double is near to. Where a configuration is not read because of one, it is a whole
number, and it is the value of one of the fields that are read as doubles. -/

namespace Lindenmayer

def Json.at? (v : Json) : List String → Option Json
  | [] => some v
  | k :: ks =>
    match v with
    | .object ms => (ms.lookup (.ofString k)).bind (·.at? ks)
    | _ => none

namespace Config

def numberFields : List (List String) :=
  [["angle"], ["svg", "width"], ["svg", "height"], ["svg", "margin"],
    ["svg", "style", "stroke_width"]]

/-- A field that is read as a double holds a whole number beyond all of them. -/
def Oversized (v : Json) : Prop :=
  ∃ field ∈ numberFields, ∃ n, v.at? field = some (.int n) ∧ Binary64.ofInt? n = none

lemma asNumber_eq_tooLarge {field : Text} {v : Json}
    (h : asNumber field v = .error .numberTooLarge) :
    ∃ n, v = .int n ∧ Binary64.ofInt? n = none := by
  unfold asNumber at h
  split at h
  · cases h
  · next n =>
    split at h
    · cases h
    · next hn => exact ⟨n, rfl, hn⟩
  · cases h

lemma asInteger_ne_tooLarge (field : Text) (v : Json) :
    asInteger field v ≠ .error .numberTooLarge := by
  cases v <;> simp [asInteger]

lemma asString_ne_tooLarge (field : Text) (v : Json) :
    asString field v ≠ .error .numberTooLarge := by
  cases v <;> simp [asString]

lemma asBoolean_ne_tooLarge (field : Text) (v : Json) :
    asBoolean field v ≠ .error .numberTooLarge := by
  cases v <;> simp [asBoolean]

lemma asObject_ne_tooLarge (field : Text) (v : Json) :
    asObject field v ≠ .error .numberTooLarge := by
  cases v <;> simp [asObject]

lemma asObject_eq_ok_iff {field : Text} {v : Json} {ms : Members} :
    asObject field v = .ok ms ↔ v = .object ms := by
  cases v <;> simp [asObject]

lemma require_ne_tooLarge {holds : Bool} {e : Error} (he : e ≠ .numberTooLarge) :
    require holds e ≠ .error .numberTooLarge := by
  cases holds <;> simp [require, he]

section Member

variable {α : Type} {ms : Members} {key : String} {read : Json → Except Error α} {absent : α}

lemma member_eq_error_iff {e : Error} :
    member ms key read absent = .error e ↔
      ∃ v, ms.lookup (.ofString key) = some v ∧ read v = .error e := by
  unfold member
  cases ms.lookup (.ofString key) <;> simp

lemma member_ne_tooLarge (h : ∀ v, read v ≠ .error .numberTooLarge) :
    member ms key read absent ≠ .error .numberTooLarge := fun he => by
  obtain ⟨v, -, hv⟩ := member_eq_error_iff.mp he
  exact h v hv

lemma at?_of_member_tooLarge {field : Text} {absent : Float}
    (h : member ms key (asNumber field) absent = .error .numberTooLarge) :
    ∃ n, (Json.object ms).at? [key] = some (.int n) ∧ Binary64.ofInt? n = none := by
  obtain ⟨v, hlookup, hv⟩ := member_eq_error_iff.mp h
  obtain ⟨n, rfl, hn⟩ := asNumber_eq_tooLarge hv
  refine ⟨n, ?_, hn⟩
  rw [Json.at?, hlookup]
  rfl

lemma at?_of_member_object {field : Text} {inner : Members} {k : String} {ks : List String}
    {v : Json} (h : member ms key (asObject field) [] = .ok inner)
    (hv : (Json.object inner).at? (k :: ks) = some v) :
    (Json.object ms).at? (key :: k :: ks) = some v := by
  unfold member at h
  split at h
  · next w hlookup =>
    obtain rfl := asObject_eq_ok_iff.mp h
    rw [Json.at?, hlookup]
    exact hv
  · obtain rfl := Except.ok.inj h
    cases hv

end Member

lemma rulesOfText_ne_tooLarge (s : Text) : rulesOfText s ≠ .error .numberTooLarge := by
  intro h
  obtain ⟨cause, -, hcause⟩ := Except.mapError_eq_error_iff.mp h
  cases hcause

lemma readRuleLines_ne_tooLarge (index : Nat) (vs : List Json) :
    readRuleLines index vs ≠ .error .numberTooLarge := by
  induction vs generalizing index with
  | nil => simp [readRuleLines]
  | cons v vs ih =>
    intro h
    obtain ⟨line, -, h⟩ := Except.of_bind_eq_error (asString_ne_tooLarge _ _) h
    obtain ⟨lines, -, h⟩ := Except.of_bind_eq_error (ih _) h
    cases h

lemma readRuleMembers_ne_tooLarge (t : RuleTable) (ms : Members) :
    readRuleMembers t ms ≠ .error .numberTooLarge := by
  induction ms generalizing t with
  | nil => simp [readRuleMembers]
  | cons m ms ih =>
    intro h
    obtain ⟨_, -, h⟩ := Except.of_bind_eq_error (require_ne_tooLarge (by simp)) h
    obtain ⟨w, -, h⟩ := Except.of_bind_eq_error (asString_ne_tooLarge _ _) h
    exact ih _ h

lemma readRules_ne_tooLarge (v : Json) : readRules v ≠ .error .numberTooLarge := by
  unfold readRules
  split
  · exact rulesOfText_ne_tooLarge _
  · intro h
    obtain ⟨lines, -, h⟩ := Except.of_bind_eq_error (readRuleLines_ne_tooLarge _ _) h
    exact rulesOfText_ne_tooLarge _ h
  · intro h
    obtain ⟨ms, -, h⟩ := Except.of_bind_eq_error (asObject_ne_tooLarge _ _) h
    exact readRuleMembers_ne_tooLarge _ _ h

lemma readPreset_ne_tooLarge (v : Json) : readPreset v ≠ .error .numberTooLarge := by
  intro h
  obtain ⟨key, -, h⟩ := Except.of_bind_eq_error (asString_ne_tooLarge _ _) h
  split at h <;> cases h

lemma readSeed_ne_tooLarge (base : Option Grammar) (ms : Members) :
    readSeed base ms ≠ .error .numberTooLarge := by
  unfold readSeed
  split
  · exact asString_ne_tooLarge _ _
  · simp
  · simp

lemma readBackground_ne_tooLarge (v : Json) : readBackground v ≠ .error .numberTooLarge := by
  unfold readBackground
  split
  · simp
  · intro h
    obtain ⟨s, -, h⟩ := Except.of_bind_eq_error (asString_ne_tooLarge _ _) h
    cases h

lemma at?_of_readGrammar_tooLarge {ms : Members} (h : readGrammar ms = .error .numberTooLarge) :
    ∃ n, (Json.object ms).at? ["angle"] = some (.int n) ∧ Binary64.ofInt? n = none := by
  obtain ⟨base, -, h⟩ := Except.of_bind_eq_error (member_ne_tooLarge readPreset_ne_tooLarge) h
  obtain ⟨name, -, h⟩ := Except.of_bind_eq_error (member_ne_tooLarge (asString_ne_tooLarge _)) h
  obtain ⟨seed, -, h⟩ := Except.of_bind_eq_error (readSeed_ne_tooLarge _ _) h
  obtain ⟨_, -, h⟩ := Except.of_bind_eq_error (require_ne_tooLarge (by simp)) h
  obtain ⟨rules, -, h⟩ := Except.of_bind_eq_error (member_ne_tooLarge readRules_ne_tooLarge) h
  rcases Except.bind_eq_error_iff.mp h with h | ⟨angle, -, h⟩
  · exact at?_of_member_tooLarge h
  · obtain ⟨iterations, -, h⟩ :=
      Except.of_bind_eq_error (member_ne_tooLarge (asInteger_ne_tooLarge _)) h
    obtain ⟨_, -, h⟩ := Except.of_bind_eq_error (require_ne_tooLarge (by simp)) h
    cases h

lemma at?_of_readStyle_tooLarge {ms : Members} (h : readStyle ms = .error .numberTooLarge) :
    ∃ n, (Json.object ms).at? ["stroke_width"] = some (.int n) ∧ Binary64.ofInt? n = none := by
  have hstring {key : String} {field absent : Text} :
      member ms key (asString field) absent ≠ .error .numberTooLarge :=
    member_ne_tooLarge (asString_ne_tooLarge field)
  obtain ⟨stroke, -, h⟩ := Except.of_bind_eq_error hstring h
  rcases Except.bind_eq_error_iff.mp h with h | ⟨width, -, h⟩
  · exact at?_of_member_tooLarge h
  · obtain ⟨fill, -, h⟩ := Except.of_bind_eq_error hstring h
    obtain ⟨linecap, -, h⟩ := Except.of_bind_eq_error hstring h
    obtain ⟨linejoin, -, h⟩ := Except.of_bind_eq_error hstring h
    cases h

def canvasFields : List (List String) :=
  [["width"], ["height"], ["margin"], ["style", "stroke_width"]]

lemma at?_of_readCanvas_tooLarge {ms : Members} (h : readCanvas ms = .error .numberTooLarge) :
    ∃ field ∈ canvasFields, ∃ n,
      (Json.object ms).at? field = some (.int n) ∧ Binary64.ofInt? n = none := by
  rcases Except.bind_eq_error_iff.mp h with h | ⟨width, -, h⟩
  · exact ⟨["width"], by simp [canvasFields], at?_of_member_tooLarge h⟩
  rcases Except.bind_eq_error_iff.mp h with h | ⟨height, -, h⟩
  · exact ⟨["height"], by simp [canvasFields], at?_of_member_tooLarge h⟩
  obtain ⟨_, -, h⟩ := Except.of_bind_eq_error (require_ne_tooLarge (by simp)) h
  obtain ⟨_, -, h⟩ := Except.of_bind_eq_error (require_ne_tooLarge (by simp)) h
  rcases Except.bind_eq_error_iff.mp h with h | ⟨margin, -, h⟩
  · exact ⟨["margin"], by simp [canvasFields], at?_of_member_tooLarge h⟩
  obtain ⟨_, -, h⟩ := Except.of_bind_eq_error (require_ne_tooLarge (by simp)) h
  obtain ⟨precision, -, h⟩ :=
    Except.of_bind_eq_error (member_ne_tooLarge (asInteger_ne_tooLarge _)) h
  obtain ⟨_, -, h⟩ := Except.of_bind_eq_error (require_ne_tooLarge (by simp)) h
  obtain ⟨flip, -, h⟩ := Except.of_bind_eq_error (member_ne_tooLarge (asBoolean_ne_tooLarge _)) h
  obtain ⟨styleMembers, hstyle, h⟩ :=
    Except.of_bind_eq_error (member_ne_tooLarge (asObject_ne_tooLarge _)) h
  rcases Except.bind_eq_error_iff.mp h with h | ⟨style, -, h⟩
  · obtain ⟨n, hn, hlarge⟩ := at?_of_readStyle_tooLarge h
    exact ⟨["style", "stroke_width"], by simp [canvasFields], n, at?_of_member_object hstyle hn,
      hlarge⟩
  · obtain ⟨background, -, h⟩ :=
      Except.of_bind_eq_error (member_ne_tooLarge readBackground_ne_tooLarge) h
    cases h

lemma oversized_of_ofJson {v : Json} (h : ofJson v = .error .numberTooLarge) : Oversized v := by
  obtain ⟨ms, hms, hrest⟩ := Except.of_bind_eq_error (asObject_ne_tooLarge _ _) h
  obtain rfl := asObject_eq_ok_iff.mp hms
  rcases Except.bind_eq_error_iff.mp hrest with h | ⟨grammar, -, h⟩
  · exact ⟨["angle"], by simp [numberFields], at?_of_readGrammar_tooLarge h⟩
  obtain ⟨svg, hsvg, h⟩ := Except.of_bind_eq_error (member_ne_tooLarge (asObject_ne_tooLarge _)) h
  rcases Except.bind_eq_error_iff.mp h with h | ⟨canvas, -, h⟩
  · obtain ⟨field, hfield, n, hn, hlarge⟩ := at?_of_readCanvas_tooLarge h
    have hmem : "svg" :: field ∈ numberFields := by
      simp only [canvasFields, List.mem_cons, List.not_mem_nil, or_false] at hfield
      rcases hfield with rfl | rfl | rfl | rfl <;> simp [numberFields]
    cases field with
    | nil => cases hn
    | cons k ks => exact ⟨_, hmem, n, at?_of_member_object hsvg hn, hlarge⟩
  · cases h

example : Oversized (.object [("svg", .object [("margin", .int (2 ^ 1024))])]) :=
  ⟨["svg", "margin"], by simp [numberFields], 2 ^ 1024, rfl, by decide +kernel⟩

end Config

end Lindenmayer
