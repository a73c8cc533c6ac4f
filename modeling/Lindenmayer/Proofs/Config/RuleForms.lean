import Lindenmayer.Proofs.Config.Preset
import Lindenmayer.Proofs.Except
import Lindenmayer.Proofs.Rules.Reading

/-! The three ways to write the rules of a configuration. A list of texts is read as the texts one after the
other, and a table that can be written as a text can be written in all three ways. -/

namespace Lindenmayer.Config

open Text

def textList (ts : List Text) : Json := .array (ts.map .string)

lemma readRuleLines_string (index : ℕ) (ts : List Text) :
    readRuleLines index (ts.map .string) = .ok ts := by
  induction ts generalizing index with
  | nil => rfl
  | cons s ts ih =>
    change (readRuleLines (index + 1) (ts.map .string) >>= fun lines => .ok (s :: lines)) = _
    rw [ih]
    rfl

lemma readRules_textList (ts : List Text) :
    readRules (textList ts) = rulesOfText (joinLines ts) := by
  rw [textList, readRules, readRuleLines_string]
  rfl

lemma rulesOfText_eq_ok_iff {s : Text} {t : RuleTable} :
    rulesOfText s = .ok t ↔ Rules.parse s = .ok t :=
  Except.mapError_eq_ok_iff

lemma readRules_textList_eq_ok_iff {ts : List Text} {t : RuleTable} :
    readRules (textList ts) = .ok t ↔
      ∃ us, List.Forall₂ (fun s u => Rules.parse s = .ok u) ts us ∧ t = .merge us := by
  simp only [readRules_textList, rulesOfText_eq_ok_iff, Rules.parse_joinLines_iff]

lemma readRules_string_joined (ts : List Text) :
    readRules (.string (([.char '\n'] : Text).intercalate ts)) = readRules (textList ts) :=
  (readRules_textList ts).symm

lemma exists_forall₂_parse_iff {ts : List Text} :
    (∃ us, List.Forall₂ (fun s u => Rules.parse s = .ok u) ts us) ↔
      ∀ s ∈ ts, ∃ u, Rules.parse s = .ok u := by
  induction ts with
  | nil => simp
  | cons s ts ih =>
    rw [List.forall_mem_cons, ← ih]
    constructor
    · rintro ⟨_, _ | ⟨hs, hts⟩⟩
      exact ⟨⟨_, hs⟩, ⟨_, hts⟩⟩
    · rintro ⟨⟨u, hs⟩, us, hts⟩
      exact ⟨u :: us, .cons hs hts⟩

lemma readRules_of_writable {t : RuleTable} (ht : t.Writable) :
    readRules (.object (ruleMembers t.entries)) = .ok t ∧
      readRules (.string (Rules.format t)) = .ok t ∧
      readRules (textList (lines (Rules.format t))) = .ok t := by
  have hread := Rules.parse_format_of_writable ht
  refine ⟨readRules_ruleMembers fun e he => ?_, ?_, ?_⟩
  · obtain ⟨c, hkey, -⟩ := (ht e he).key
    rw [hkey, List.length_singleton]
  · rw [readRules, rulesOfText_eq_ok_iff, hread]
  · rw [readRules_textList, rulesOfText_eq_ok_iff, Rules.lines_format_of_writable ht]
    exact hread

/-- A list of texts is read just if each of them is, and then as the entries of one after the other: a key
keeps the place where it first came and has the replacement that came last. The joined text is read alike,
and a table that can be written as a text is read from its members, its text and the lines of it. -/
theorem readRules_forms :
    (∀ ts : List Text,
      ((∃ t, readRules (textList ts) = .ok t) ↔ ∀ s ∈ ts, ∃ u, Rules.parse s = .ok u) ∧
      (∀ us, List.Forall₂ (fun s u => Rules.parse s = .ok u) ts us →
        ∃ t, readRules (textList ts) = .ok t ∧ t.keys = (us.flatMap RuleTable.keys).eraseDups ∧
          ∀ k, t.get? k = us.reverse.findSome? (·.get? k)) ∧
      readRules (.string (([.char '\n'] : Text).intercalate ts)) = readRules (textList ts)) ∧
    ∀ t : RuleTable, t.Writable →
      readRules (.object (ruleMembers t.entries)) = .ok t ∧
        readRules (.string (Rules.format t)) = .ok t ∧
        readRules (textList (lines (Rules.format t))) = .ok t := by
  refine ⟨fun ts => ⟨?read, fun us hus => ?table, readRules_string_joined ts⟩,
    fun t => readRules_of_writable⟩
  case read =>
    rw [← exists_forall₂_parse_iff]
    constructor
    · rintro ⟨t, ht⟩
      obtain ⟨us, hus, -⟩ := readRules_textList_eq_ok_iff.mp ht
      exact ⟨us, hus⟩
    · rintro ⟨us, hus⟩
      exact ⟨_, readRules_textList_eq_ok_iff.mpr ⟨us, hus, rfl⟩⟩
  case table =>
    exact ⟨_, readRules_textList_eq_ok_iff.mpr ⟨us, hus, rfl⟩, RuleTable.keys_merge us,
      RuleTable.get?_merge us⟩

theorem readRules_forms_carriageReturn :
    (∃ us, List.Forall₂ (fun s u => Rules.parse s = .ok u)
        ["f -> ff\r", "", "# f\x0bx ->", "\nf->f-> "] us ∧
      us.map RuleTable.entries =
        ([[(['f'], ['f', 'f'])], [], [(['x'], [])], [(['f'], ['f', '-', '>'])]] :
          List (List (Word × Word))) ∧
      ∃ t, readRules (textList ["f -> ff\r", "", "# f\x0bx ->", "\nf->f-> "]) = .ok t ∧
        t.keys = (us.flatMap RuleTable.keys).eraseDups ∧
        ∀ k, t.get? k = us.reverse.findSome? (·.get? k)) ∧
    ∃ t : RuleTable, t.Writable ∧
      t.entries = ([(['-'], ['>']), (['['], [])] : List (Word × Word)) ∧
      readRules (.object (ruleMembers t.entries)) = .ok t ∧
      readRules (.string (Rules.format t)) = .ok t ∧
      readRules (textList (lines (Rules.format t))) = .ok t := by
  have hus : List.Forall₂ (fun s u => Rules.parse s = .ok u)
      ["f -> ff\r", "", "# f\x0bx ->", "\nf->f-> "]
      [.ofList [(['f'], ['f', 'f'])], .empty, .ofList [(['x'], [])],
        .ofList [(['f'], ['f', '-', '>'])]] :=
    .cons rfl (.cons rfl (.cons rfl (.cons rfl .nil)))
  have hread : Rules.parse "- -> >\n[->" = .ok (.ofList [(['-'], ['>']), (['['], [])]) := rfl
  have hwritable := Rules.parse_writable hread
  exact ⟨⟨_, hus, rfl, (readRules_forms.1 _).2.1 _ hus⟩,
    ⟨_, hwritable, rfl, readRules_forms.2 _ hwritable⟩⟩

end Lindenmayer.Config
