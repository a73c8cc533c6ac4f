import Lindenmayer.Proofs.Config.Reader
import Lindenmayer.Proofs.Rules.Entries
import Lindenmayer.Proofs.Text.Symbol

/-! Configurations that begin with a curve of the catalog. Such a one can be spelled out: what it leaves
open is said in the words of the curve, and the curve is no longer named. -/

namespace Lindenmayer.Config

def ruleMembers (es : List (Word × Word)) : Members :=
  es.map fun e => (e.1, .string e.2)

/-- What a grammar says of itself. Its angle may be written as a whole number or with a point. -/
def grammarMembers (g : Grammar) (angle : Json) : Members :=
  [("name", .string (g.name.getD defaultName)), ("seed", .string g.seed),
    ("rules", .object (ruleMembers g.rules.entries)), ("angle", angle),
    ("iterations", .int (g.iterations.getD 0))]

def spelledOut (g : Grammar) (angle : Json) (ms : Members) : Members :=
  ms.filter (fun m => m.1 != .ofString "preset") ++
    (grammarMembers g angle).filter fun m => (ms.lookup m.1).isNone

lemma lookup_filter_key (p : Text → Bool) (ms : Members) (k : Text) :
    (ms.filter fun m => p m.1).lookup k = if p k then ms.lookup k else none := by
  induction ms with
  | nil => simp
  | cons m ms ih =>
    obtain ⟨k', v⟩ := m
    by_cases hk : k = k'
    · subst hk
      by_cases hp : p k <;> simp [hp, ih]
    · have hne : (k == k') = false := beq_eq_false_iff_ne.mpr hk
      by_cases hp : p k' <;> simp [hp, ih, List.lookup_cons, hne]

section Lookup

variable {g : Grammar} {angle : Json} {ms : Members}

lemma lookup_spelledOut {k : Text} (hk : k ≠ .ofString "preset") :
    (spelledOut g angle ms).lookup k = (ms.lookup k).or ((grammarMembers g angle).lookup k) := by
  rw [spelledOut, List.lookup_append, lookup_filter_key (· != .ofString "preset"),
    lookup_filter_key (fun k => (ms.lookup k).isNone), if_pos (bne_iff_ne.mpr hk)]
  cases ms.lookup k <;> simp

lemma lookup_spelledOut_preset : (spelledOut g angle ms).lookup (.ofString "preset") = none := by
  rw [spelledOut, List.lookup_append, lookup_filter_key (· != .ofString "preset"),
    lookup_filter_key (fun k => (ms.lookup k).isNone)]
  have hnone : (grammarMembers g angle).lookup (.ofString "preset") = none := by
    simp [grammarMembers, List.lookup_cons]
  simp [hnone]

lemma member_spelledOut {α : Type} {k : String} {read : Json → Except Error α} {v : Json} {x y : α}
    (hk : k ≠ "preset") (hv : (grammarMembers g angle).lookup (.ofString k) = some v)
    (hread : read v = .ok x) :
    member (spelledOut g angle ms) k read y = member ms k read x := by
  unfold member
  rw [lookup_spelledOut (mt Text.ofString_inj.mp hk)]
  cases ms.lookup (.ofString k) with
  | none => simp [hv, hread]
  | some w => simp

end Lookup

lemma readRuleMembers_ruleMembers {t : RuleTable} {es : List (Word × Word)}
    (hes : ∀ e ∈ es, e.1.length = 1) :
    readRuleMembers t (ruleMembers es) = .ok (t.insertAll es) := by
  induction es generalizing t with
  | nil => rfl
  | cons e es ih =>
    obtain ⟨he, hes⟩ := List.forall_mem_cons.mp hes
    have hrequire : require (e.1.length == 1) .ruleKey = .ok () := by
      simp [require, he]
    change (require (e.1.length == 1) .ruleKey >>= fun _ =>
      readRuleMembers (t.insert e.1 e.2) (ruleMembers es)) = _
    rw [hrequire]
    exact ih hes

lemma readRules_ruleMembers {t : RuleTable} (ht : ∀ e ∈ t.entries, e.1.length = 1) :
    readRules (.object (ruleMembers t.entries)) = .ok t :=
  calc
    _ = Except.ok (RuleTable.empty.insertAll t.entries) := readRuleMembers_ruleMembers ht
    _ = Except.ok t := congrArg Except.ok (RuleTable.ofList_entries t)

lemma length_key_of_find? {key : Text} {g : Grammar} (hg : Catalog.find? key = some g) :
    ∀ e ∈ g.rules.entries, e.1.length = 1 := by
  have hall : ∀ p ∈ Catalog.all, ∀ e ∈ p.2.rules.entries, e.1.length = 1 := by decide
  obtain ⟨k, hmem, -⟩ := Catalog.mem_of_find? hg
  exact hall (k, g) hmem

/-- A grammar has the fields that members give, whatever it has otherwise. -/
structure Follows (ms : Members) (g : Grammar) : Prop where
  name : ∀ v, ms.lookup (.ofString "name") = some v → (asString "name" v).map some = .ok g.name
  seed : ∀ v, ms.lookup (.ofString "seed") = some v → asString "seed" v = .ok g.seed
  rules : ∀ v, ms.lookup (.ofString "rules") = some v → readRules v = .ok g.rules
  angle : ∀ v, ms.lookup (.ofString "angle") = some v → asNumber "angle" v = .ok g.angle
  iterations : ∀ v, ms.lookup (.ofString "iterations") = some v →
    (asInteger "iterations" v).map some = .ok g.iterations

lemma member_eq_ok_of_lookup {α : Type} {ms : Members} {k : String} {read : Json → Except Error α}
    {x y : α} {v : Json} (h : member ms k read x = .ok y) (hv : ms.lookup (.ofString k) = some v) :
    read v = .ok y := by
  rwa [member, hv] at h

lemma readGrammar_follows {ms : Members} {g : Grammar} (h : readGrammar ms = .ok g) :
    Follows ms g := by
  obtain ⟨base, -, h⟩ := Except.bind_eq_ok_iff.mp h
  obtain ⟨name, hname, h⟩ := Except.bind_eq_ok_iff.mp h
  obtain ⟨seed, hseed, h⟩ := Except.bind_eq_ok_iff.mp h
  obtain ⟨_, -, h⟩ := Except.bind_eq_ok_iff.mp h
  obtain ⟨rules, hrules, h⟩ := Except.bind_eq_ok_iff.mp h
  obtain ⟨angle, hangle, h⟩ := Except.bind_eq_ok_iff.mp h
  obtain ⟨iterations, hiterations, h⟩ := Except.bind_eq_ok_iff.mp h
  obtain ⟨_, -, h⟩ := Except.bind_eq_ok_iff.mp h
  obtain rfl := Except.ok.inj h
  refine ⟨fun v hv => ?_, fun v hv => ?_, fun v hv => member_eq_ok_of_lookup hrules hv,
    fun v hv => member_eq_ok_of_lookup hangle hv, fun v hv => ?_⟩
  · rw [member_eq_ok_of_lookup hname hv]
    rfl
  · simp only [readSeed, hv] at hseed
    exact hseed
  · rw [member_eq_ok_of_lookup hiterations hv]
    rfl

section Spelled

variable {ms : Members} {key : Text} {g : Grammar} {angle : Json}

lemma readSeed_spelledOut :
    readSeed none (spelledOut g angle ms) = readSeed (some g) ms := by
  unfold readSeed
  rw [lookup_spelledOut (by decide)]
  cases ms.lookup (.ofString "seed") with
  | none =>
    have hseed : (grammarMembers g angle).lookup (.ofString "seed") = some (.string g.seed) := rfl
    rw [hseed]
    rfl
  | some v => rfl

lemma readGrammar_spelledOut (hpreset : ms.lookup (.ofString "preset") = some (.string key))
    (hg : Catalog.find? key = some g) (hangle : asNumber "angle" angle = .ok g.angle) :
    readGrammar (spelledOut g angle ms) = readGrammar ms := by
  have hbase : member ms "preset" readPreset none = .ok (some g) := by
    simp only [member, hpreset, readPreset, asString, bind, Except.bind, hg]
  have hbase' : member (spelledOut g angle ms) "preset" readPreset none = .ok none := by
    rw [member, lookup_spelledOut_preset]
  have hname : member (spelledOut g angle ms) "name" (asString "name") defaultName =
      member ms "name" (asString "name") (g.name.getD defaultName) :=
    member_spelledOut (by decide) rfl rfl
  have hrules : member (spelledOut g angle ms) "rules" readRules .empty =
      member ms "rules" readRules g.rules :=
    member_spelledOut (by decide) rfl (readRules_ruleMembers (length_key_of_find? hg))
  have hangle : member (spelledOut g angle ms) "angle" (asNumber "angle") 90 =
      member ms "angle" (asNumber "angle") g.angle :=
    member_spelledOut (by decide) rfl hangle
  have hiterations : member (spelledOut g angle ms) "iterations" (asInteger "iterations") 0 =
      member ms "iterations" (asInteger "iterations") (g.iterations.getD 0) :=
    member_spelledOut (by decide) rfl rfl
  simp only [readGrammar, hbase, hbase', bind, Except.bind, Option.bind_none, Option.bind_some,
    Option.map_none, Option.map_some, Option.getD_none, Option.getD_some, hname,
    readSeed_spelledOut, hrules, hangle, hiterations]

lemma lookup_spelledOut_of_kept {k : Text} (hk : k ≠ .ofString "preset")
    (hkept : ms.lookup k ≠ none ∨ (grammarMembers g angle).lookup k = none) :
    (spelledOut g angle ms).lookup k = ms.lookup k := by
  rw [lookup_spelledOut hk]
  rcases hkept with hgiven | hother
  · obtain ⟨v, hv⟩ := Option.ne_none_iff_exists'.mp hgiven
    rw [hv, Option.some_or]
  · rw [hother, Option.or_none]

/-- A configuration that begins with a curve of the catalog is read as the one in which the curve is
spelled out. What it says itself is kept and says all of that field: nothing is taken from the curve. -/
theorem ofJson_spelledOut (hpreset : ms.lookup (.ofString "preset") = some (.string key))
    (hg : Catalog.find? key = some g) (hangle : asNumber "angle" angle = .ok g.angle) :
    ofJson (.object (spelledOut g angle ms)) = ofJson (.object ms) ∧
      (spelledOut g angle ms).lookup (.ofString "preset") = none ∧
      (∀ k, k ≠ .ofString "preset" → (spelledOut g angle ms).lookup k =
        (ms.lookup k).or ((grammarMembers g angle).lookup k)) ∧
      ∀ c, ofJson (.object ms) = .ok c → Follows ms c.grammar := by
  refine ⟨?same, lookup_spelledOut_preset, fun k => lookup_spelledOut, fun c hc => ?follows⟩
  case same =>
    have hsvg : member (spelledOut g angle ms) "svg" (asObject "svg") [] =
        member ms "svg" (asObject "svg") [] := by
      rw [member, member, lookup_spelledOut_of_kept (by decide) (.inr rfl)]
    simp only [ofJson, asObject, bind, Except.bind, readGrammar_spelledOut hpreset hg hangle, hsvg]
  case follows =>
    obtain ⟨ms', hms, hc⟩ := Except.bind_eq_ok_iff.mp hc
    obtain rfl := Except.ok.inj hms
    obtain ⟨grammar, hgrammar, hc⟩ := Except.bind_eq_ok_iff.mp hc
    obtain ⟨svg, -, hc⟩ := Except.bind_eq_ok_iff.mp hc
    obtain ⟨canvas, -, hc⟩ := Except.bind_eq_ok_iff.mp hc
    obtain rfl := Except.ok.inj hc
    exact readGrammar_follows hgrammar

end Spelled

/-- A Koch curve with a rule of its own. -/
def turnedKoch : Members := [("preset", .string "koch"), ("rules", .object [("f", .string "f-f")])]

theorem ofJson_turnedKoch :
    ofJson (.object [("rules", .object [("f", .string "f-f")]), ("name", .string "Koch curve"),
      ("seed", .string "f"), ("angle", .int 90), ("iterations", .int 4)]) =
        ofJson (.object turnedKoch) ∧
    ∃ c, ofJson (.object turnedKoch) = .ok c ∧
      c.grammar.rules.entries = ([(['f'], ['f', '-', 'f'])] : List (Word × Word)) := by
  have hpreset : turnedKoch.lookup (.ofString "preset") = some (.string "koch") := rfl
  have hg : Catalog.find? (.ofString "koch") = some Catalog.koch := rfl
  have hangle : asNumber "angle" (.int 90) = .ok Catalog.koch.angle := rfl
  obtain ⟨hsame, -, -, hfollows⟩ := ofJson_spelledOut hpreset hg hangle
  have hread : (ofJson (.object turnedKoch)).toOption.isSome = true := by decide +kernel
  obtain ⟨c, hc⟩ := Option.isSome_iff_exists.mp hread
  have hok := Except.toOption_eq_some_iff.mp hc
  have hrules : Except.ok (RuleTable.empty.insert ['f'] ['f', '-', 'f']) =
      Except.ok c.grammar.rules := (hfollows c hok).rules _ rfl
  exact ⟨hsame, c, hok, congrArg RuleTable.entries (Except.ok.inj hrules).symm⟩

end Lindenmayer.Config
