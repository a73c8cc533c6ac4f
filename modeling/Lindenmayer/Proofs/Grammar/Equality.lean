import Lindenmayer.Grammar.Sourced
import Lindenmayer.Proofs.Binary64.Equality
import Lindenmayer.Proofs.Rules.Maps

/-! Equality of grammars whose angles are numbers. Such grammars are equal just if they are the same map
of rules with the same other fields, and just if their keys are equal. So a set of them, which looks its
elements up by hashes of their keys, has an element for each class of equal grammars. -/

namespace Lindenmayer

/-- The same map of rules, in whatever order, and the same other fields; the angles are one number. -/
structure Grammar.SameFields (g h : Grammar) : Prop where
  rules : ∀ k, g.rules.get? k = h.rules.get? k
  seed : g.seed = h.seed
  angle : Binary64.SameNumber g.angle h.angle
  iterations : g.iterations = h.iterations
  name : g.name = h.name

abbrev Measured : Type := {s : Sourced // s.grammar.angle.isNaN = false}

namespace Grammar

variable {g h : Grammar}

lemma beq_iff_sameFields (hg : g.angle.isNaN = false) (hh : h.angle.isNaN = false) :
    (g == h) = true ↔ g.SameFields h := by
  change g.same h = true ↔ _
  simp only [same, Bool.and_eq_true, RuleTable.agree_iff, Binary64.beq_iff_sameNumber hg hh,
    beq_iff_eq]
  constructor
  · rintro ⟨⟨⟨⟨hrules, hseed⟩, hangle⟩, hiterations⟩, hname⟩
    exact ⟨hrules, hseed, hangle, hiterations, hname⟩
  · rintro ⟨hrules, hseed, hangle, hiterations, hname⟩
    exact ⟨⟨⟨⟨hrules, hseed⟩, hangle⟩, hiterations⟩, hname⟩

/-- Grammars with equal keys are equal, and no others are. -/
lemma key_beq_iff : (g.key == h.key) = true ↔ (g == h) = true := by
  have hkey : (g.key == h.key) = (g.rules.sortedEntries == h.rules.sortedEntries &&
      (g.seed == h.seed && (g.angle == h.angle && (g.iterations == h.iterations &&
        g.name == h.name)))) := rfl
  change _ ↔ g.same h = true
  simp only [hkey, same, Bool.and_eq_true, RuleTable.agree_iff, ← RuleTable.sortedEntries_eq_iff,
    beq_iff_eq, and_assoc]

@[simp] lemma ofParts_parts (g : Grammar) : ofParts g.parts = g := by
  rw [parts, ofParts, RuleTable.ofList_entries]

end Grammar

namespace Measured

open Grammar (Parts SameFields)

variable (a b : Measured)

lemma mark_eq : a.1.mark = none := by
  rw [Sourced.mark, a.2, if_neg Bool.false_ne_true]

lemma settled_eq : a.1.settled = a.1.grammar := by
  rw [Sourced.settled, a.2, if_neg Bool.false_ne_true]

/-- Where an angle came from does not matter if it is a number. -/
lemma beq_eq : (a.1 == b.1) = (a.1.grammar == b.1.grammar) := by
  change Sourced.same a.1 b.1 = _
  rw [Sourced.same, mark_eq, mark_eq, settled_eq, settled_eq]
  rfl

lemma beq_iff : (a.1 == b.1) = true ↔ a.1.grammar.SameFields b.1.grammar := by
  rw [beq_eq, Grammar.beq_iff_sameFields a.2 b.2]

lemma key_beq_iff : (a.1.key == b.1.key) = true ↔ (a.1 == b.1) = true := by
  rw [beq_eq, ← Grammar.key_beq_iff, Sourced.key, Sourced.key, mark_eq, mark_eq, settled_eq,
    settled_eq]
  rfl

lemma equivalence : Equivalence fun a b : Measured => (a.1 == b.1) = true := by
  simp only [beq_iff]
  refine ⟨fun a => ⟨fun _ => rfl, rfl, .refl a.2, rfl, rfl⟩, fun h => ?_, fun h h' => ?_⟩
  · exact ⟨fun k => (h.rules k).symm, h.seed.symm, h.angle.symm, h.iterations.symm, h.name.symm⟩
  · exact ⟨fun k => (h.rules k).trans (h'.rules k), h.seed.trans h'.seed, h.angle.trans h'.angle,
      h.iterations.trans h'.iterations, h.name.trans h'.name⟩

lemma ofParts_beq (a : Measured) (origin : ℕ) :
    ((⟨.ofParts a.1.grammar.parts, origin⟩ : Sourced) == a.1) = true := by
  rw [Grammar.ofParts_parts]
  exact (beq_iff ⟨⟨a.1.grammar, origin⟩, a.2⟩ a).mpr ((beq_iff a a).mp (equivalence.refl a))

instance alike : Setoid Measured := ⟨_, equivalence⟩

instance : BEq Measured := ⟨fun a b => a.1 == b.1⟩

/-- The classes of equal grammars in a list. -/
def classes (l : List Measured) : Set (Quotient alike) := {c | ∃ a ∈ l, ⟦a⟧ = c}

variable {a b : Measured} {l : List Measured}

lemma mk_eq_mk_iff : (⟦a⟧ : Quotient alike) = ⟦b⟧ ↔ (a == b) = true := Quotient.eq

lemma mem_classes {c : Quotient alike} : c ∈ classes l ↔ ∃ a ∈ l, ⟦a⟧ = c := Iff.rfl

lemma mk_mem_classes : ⟦a⟧ ∈ classes l ↔ ∃ b ∈ l, (b == a) = true := by
  simp only [mem_classes, mk_eq_mk_iff]

lemma finite_classes (l : List Measured) : (classes l).Finite :=
  (List.finite_toSet l).image fun a => (⟦a⟧ : Quotient alike)

@[simp] lemma classes_nil : classes [] = ∅ := by
  ext c
  simp [mem_classes]

lemma classes_append (k l : List Measured) : classes (k ++ l) = classes k ∪ classes l := by
  ext c
  simp [mem_classes, or_and_right, exists_or]

lemma classes_cons (a : Measured) (l : List Measured) : classes (a :: l) = insert ⟦a⟧ (classes l) := by
  ext c
  simp [mem_classes, eq_comm]

lemma classes_perm {k : List Measured} (h : l.Perm k) : classes l = classes k := by
  ext c
  simp [mem_classes, h.mem_iff]

/-- What is struck out for its equal takes no class away. -/
lemma insert_classes_filter (a : Measured) (l : List Measured) :
    insert ⟦a⟧ (classes (l.filter fun b => !b == a)) = insert ⟦a⟧ (classes l) := by
  ext c
  rw [Set.mem_insert_iff, Set.mem_insert_iff]
  refine or_congr_right' fun hc => ⟨fun ⟨b, hb, h⟩ => ⟨b, (List.mem_filter.mp hb).1, h⟩, ?_⟩
  rintro ⟨b, hb, rfl⟩
  refine ⟨b, List.mem_filter.mpr ⟨hb, ?_⟩, rfl⟩
  rw [Bool.not_eq_true', Bool.eq_false_iff]
  exact fun h => hc (mk_eq_mk_iff.mpr h)

lemma distinctCount_eq_ncard (l : List Measured) :
    distinctCount (l.map (·.1)) = (classes l).ncard := by
  induction l using eraseDups_induction with
  | nil => simp [distinctCount]
  | cons a l ih =>
    have hfilter : (l.map (·.1)).filter (fun b => !b == a.1) =
        (l.filter fun b => !b == a).map (·.1) := List.filter_map
    have hfresh : ⟦a⟧ ∉ classes (l.filter fun b => !b == a) := by
      rw [mk_mem_classes]
      rintro ⟨b, hb, h⟩
      have hother := (List.mem_filter.mp hb).2
      rw [h] at hother
      cases hother
    rw [distinctCount] at ih ⊢
    rw [List.map_cons, List.eraseDups_cons, List.length_cons, hfilter, ih, classes_cons,
      ← insert_classes_filter, Set.ncard_insert_of_notMem hfresh (finite_classes _)]

/-- A hash of keys, alike for equal ones. -/
structure KeyHash where
  hash : Option ℕ × Parts → ℕ
  eq_of_beq : ∀ {p q}, (p == q) = true → hash p = hash q

variable (hash : KeyHash)

/-- Puts a grammar into a set that looks for elements with its hash first, and among them for an equal
one. -/
def insertHashed (kept : List Measured) (a : Measured) : List Measured :=
  if kept.any fun b => hash.hash b.1.key == hash.hash a.1.key && b == a then kept else kept ++ [a]

lemma insertHashed_eq (kept : List Measured) (a : Measured) :
    insertHashed hash kept a = if kept.any (· == a) then kept else kept ++ [a] := by
  have hsame (b : Measured) : (hash.hash b.1.key == hash.hash a.1.key && b == a) = (b == a) := by
    cases h : b == a with
    | false => exact Bool.and_false _
    | true => rw [hash.eq_of_beq ((key_beq_iff b a).mpr h), beq_self_eq_true, Bool.and_true]
  simp only [insertHashed, hsame]

lemma insertHashed_classes (kept : List Measured) (a : Measured) :
    classes (insertHashed hash kept a) = insert ⟦a⟧ (classes kept) ∧
      (kept.length = (classes kept).ncard →
        (insertHashed hash kept a).length = (classes (insertHashed hash kept a)).ncard) := by
  rw [insertHashed_eq]
  split
  · next h =>
    have hmem : ⟦a⟧ ∈ classes kept := mk_mem_classes.mpr (List.any_eq_true.mp h)
    exact ⟨(Set.insert_eq_of_mem hmem).symm, id⟩
  · next h =>
    have hmem : ⟦a⟧ ∉ classes kept := fun hmem => h (List.any_eq_true.mpr (mk_mem_classes.mp hmem))
    have hclasses : classes (kept ++ [a]) = insert ⟦a⟧ (classes kept) := by
      rw [classes_append, classes_cons, classes_nil, Set.union_insert, Set.union_empty]
    refine ⟨hclasses, fun hlength => ?_⟩
    rw [hclasses, Set.ncard_insert_of_notMem hmem (finite_classes kept), List.length_append, hlength,
      List.length_singleton]

lemma length_foldl_insertHashed (l : List Measured) :
    (l.foldl (insertHashed hash) []).length = (classes l).ncard := by
  have hfold : ∀ kept : List Measured, kept.length = (classes kept).ncard →
      (l.foldl (insertHashed hash) kept).length = (classes (kept ++ l)).ncard := by
    induction l with
    | nil => exact fun kept h => by rwa [List.append_nil]
    | cons a l ih =>
      intro kept h
      obtain ⟨hclasses, hlength⟩ := insertHashed_classes hash kept a
      rw [List.foldl_cons, ih _ (hlength h), classes_append, classes_append, hclasses, classes_cons,
        Set.insert_union, Set.union_insert]
  exact hfold [] (by simp)

/-- Grammars whose angles are numbers are equal just if their rules are one map and their other fields are
the same, and just if their keys are equal. One that is made again from its parts is equal, with its rules
in their order, wherever its angle then comes from. Of a list there are as many distinct grammars as
classes of equal ones, in whatever order they are counted, and so many does a set have that looks
them up by hashes of their keys. -/
theorem equivalence_key_parts_distinctCount :
    (Equivalence fun a b : Measured => (a.1 == b.1) = true) ∧
    (∀ a b : Measured, ((a.1 == b.1) = true ↔ a.1.grammar.SameFields b.1.grammar) ∧
      ((a.1.key == b.1.key) = true ↔ (a.1 == b.1) = true)) ∧
    (∀ (a : Measured) (origin : ℕ),
      ((⟨.ofParts a.1.grammar.parts, origin⟩ : Sourced) == a.1) = true ∧
      (Grammar.ofParts a.1.grammar.parts).rules.entries = a.1.grammar.rules.entries) ∧
    ∀ l : List Measured,
      distinctCount (l.map (·.1)) = (classes l).ncard ∧
      (∀ k, l.Perm k → distinctCount (k.map (·.1)) = distinctCount (l.map (·.1))) ∧
      ∀ hash, (l.foldl (insertHashed hash) []).length = distinctCount (l.map (·.1)) := by
  refine ⟨equivalence, fun a b => ⟨beq_iff a b, key_beq_iff a b⟩, fun a origin => ?_, fun l => ?_⟩
  · exact ⟨ofParts_beq a origin, by rw [Grammar.ofParts_parts]⟩
  · refine ⟨distinctCount_eq_ncard l, fun k hperm => ?_, fun hash => ?_⟩
    · rw [distinctCount_eq_ncard, distinctCount_eq_ncard, classes_perm hperm]
    · rw [length_foldl_insertHashed, distinctCount_eq_ncard]

end Measured

end Lindenmayer
