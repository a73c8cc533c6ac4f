import Lindenmayer.Grammar.Catalog
import Lindenmayer.Proofs.Except
import Lindenmayer.Proofs.Grammar.Morphism
import Lindenmayer.Proofs.Grammar.Reachable
import Mathlib.Data.List.Perm.Basic
import Mathlib.Data.Matrix.Mul

/-! Growth of the generations. How often each symbol stands in a word is all that counts for how often
they stand in the next one, and goes through a matrix: a symbol without a rule has the row of the unit
matrix, and one that is erased has a row of zeros. -/

namespace Lindenmayer

open Matrix

namespace RuleTable

lemma count_rewrite (t : RuleTable) {w : Word} {s : Finset Symbol} (hw : ∀ b ∈ w, b ∈ s)
    (c : Symbol) : (t.rewrite w).count c = ∑ b ∈ s, w.count b * (t.replacement b).count c := by
  rw [rewrite, List.count_flatMap, Finset.sum_list_map_count]
  refine Finset.sum_subset (fun b hb => hw b (List.mem_toFinset.mp hb)) fun b _ hb => ?_
  rw [List.count_eq_zero.mpr (mt List.mem_toFinset.mpr hb), zero_smul]

/-- The symbols change places within each replacement. -/
def Permuted (t u : RuleTable) : Prop :=
  List.Forall₂ (fun e e' => e.1 = e'.1 ∧ e.2.Perm e'.2) t.entries u.entries

lemma Permuted.replacement {t u : RuleTable} (h : t.Permuted u) (c : Symbol) :
    (t.replacement c).Perm (u.replacement c) := by
  unfold RuleTable.replacement get?
  unfold Permuted at h
  generalize t.entries = es, u.entries = es' at h ⊢
  induction h with
  | nil => exact .refl _
  | cons he _ ih =>
    rw [lookup_cons_entry, lookup_cons_entry, ← he.1]
    split
    · exact he.2
    · exact ih

end RuleTable

namespace Grammar

/-- The symbols of the seed and of the rules. -/
def symbols (g : Grammar) : Finset Symbol :=
  (g.seed ++ g.rules.entries.flatMap fun e => e.1 ++ e.2).toFinset

def growth (g : Grammar) : Matrix g.symbols g.symbols ℕ :=
  .of fun b c => (g.rules.replacement b).count c.val

def census (g : Grammar) (w : Word) : g.symbols → ℕ := fun c => w.count c.val

variable {g g' : Grammar}

lemma closed_symbols (g : Grammar) : g.rules.Closed g.seed g.symbols := by
  simp only [RuleTable.Closed, symbols, Finset.mem_coe, List.mem_toFinset, List.mem_append]
  refine ⟨fun c hc => .inl hc, fun b hb c hc => ?_⟩
  obtain hkeep | hmem := g.rules.replacement_eq_or_mem b
  · rw [hkeep] at hc
    exact List.mem_singleton.mp hc ▸ hb
  · exact .inr (List.mem_flatMap.mpr ⟨_, hmem, List.mem_append_right _ hc⟩)

lemma mem_symbols_of_mem_generation {n : ℕ} {c : Symbol}
    (hc : c ∈ g.rules.generation n g.seed) : c ∈ g.symbols :=
  (RuleTable.isLeast_reachable g.rules g.seed).2 g.closed_symbols
    (RuleTable.reachable_of_mem_generation hc)

lemma census_rewrite {w : Word} (hw : ∀ b ∈ w, b ∈ g.symbols) :
    g.census (g.rules.rewrite w) = g.census w ᵥ* g.growth := by
  funext c
  rw [census, g.rules.count_rewrite hw]
  exact (Finset.sum_coe_sort g.symbols fun b => w.count b * (g.rules.replacement b).count ↑c).symm

lemma census_generation (g : Grammar) (n : ℕ) :
    g.census (g.rules.generation n g.seed) = g.census g.seed ᵥ* g.growth ^ n := by
  induction n with
  | zero => rw [pow_zero, vecMul_one, RuleTable.generation]
  | succ n ih =>
    rw [RuleTable.generation_succ, census_rewrite fun b hb => mem_symbols_of_mem_generation hb, ih,
      vecMul_vecMul, ← pow_succ]

structure SameCounts (g g' : Grammar) : Prop where
  seed : ∀ c, g.seed.count c = g'.seed.count c
  replacement : ∀ b c, (g.rules.replacement b).count c = (g'.rules.replacement b).count c

lemma SameCounts.generation_perm (h : g.SameCounts g') (n : ℕ) :
    (g.rules.generation n g.seed).Perm (g'.rules.generation n g'.seed) := by
  induction n with
  | zero => exact List.perm_iff_count.mpr h.seed
  | succ n ih =>
    rw [RuleTable.generation_succ, RuleTable.generation_succ]
    exact ih.flatMap fun b _ => List.perm_iff_count.mpr (h.replacement b)

lemma SameCounts.expandWithin_error_iff (h : g.SameCounts g') (limit n : ℤ) (e : ExpansionError) :
    g.rules.expandWithin limit g.seed n = .error e ↔
      g'.rules.expandWithin limit g'.seed n = .error e := by
  have hlength := RuleTable.expandWithin_map List.length List.length id
    (fun k => (h.generation_perm k).length_eq) limit n
  rw [← Except.map_eq_error_iff (f := List.length), hlength, Except.map_eq_error_iff]

structure Permuted (g g' : Grammar) : Prop where
  seed : g.seed.Perm g'.seed
  rules : g.rules.Permuted g'.rules

lemma Permuted.sameCounts (h : g.Permuted g') : g.SameCounts g' where
  seed := List.perm_iff_count.mp h.seed
  replacement b := List.perm_iff_count.mp (h.rules.replacement b)

/-- The counts of the symbols in a generation are those in the seed times the power of the growth
matrix. So lengths come from counts alone, and a limit is passed at the same generation wherever the
symbols stand in the seed and in the replacements. -/
theorem count_expand (g : Grammar) :
    (∀ n : ℕ, ∃ w, g.Expands n w ∧
      (∀ c : g.symbols, w.count c.val = ∑ b : g.symbols, g.seed.count b.val * (g.growth ^ n) b c) ∧
      ∀ c ∉ g.symbols, w.count c = 0) ∧
    (∀ g', g.SameCounts g' → ∀ n : ℕ, ∃ w w', g.Expands n w ∧ g'.Expands n w' ∧
      w.length = w'.length) ∧
    ∀ g', g.Permuted g' → ∀ (limit n : ℤ) (e : ExpansionError),
      g.rules.expandWithin limit g.seed n = .error e ↔
        g'.rules.expandWithin limit g'.seed n = .error e := by
  refine ⟨fun n => ⟨_, expands_iff.mpr rfl, ?counts, fun c hc => ?absent⟩,
    fun g' h n => ⟨_, _, expands_iff.mpr rfl, expands_iff.mpr rfl, ?lengths⟩,
    fun g' h limit n e => ?limits⟩
  case counts => exact congrFun (g.census_generation n)
  case absent => exact List.count_eq_zero.mpr (mt mem_symbols_of_mem_generation hc)
  case lengths => exact (h.generation_perm n).length_eq
  case limits => exact h.sameCounts.expandWithin_error_iff limit n e

def shuffledDragon : Grammar where
  rules := Catalog.rulesOf [("x", "f++yx"), ("y", "x--fy")]
  seed := "xf"
  angle := 90

theorem count_expand_shuffledDragon :
    Catalog.dragon.Permuted shuffledDragon ∧ Catalog.dragon.SameCounts shuffledDragon ∧
      (∃ w w', Catalog.dragon.Expands 5 w ∧ shuffledDragon.Expands 5 w' ∧ w.length = w'.length) ∧
      shuffledDragon.rules.expandWithin 29 shuffledDragon.seed 3 = .error (.tooLong 29 3 3) := by
  have hpermuted : Catalog.dragon.Permuted shuffledDragon := by
    refine ⟨by decide, ?_⟩
    change List.Forall₂ _ [((['x'] : Word), _), (['y'], _)] [((['x'] : Word), _), (['y'], _)]
    exact .cons ⟨rfl, by decide⟩ (.cons ⟨rfl, by decide⟩ .nil)
  obtain ⟨-, hlengths, hlimits⟩ := count_expand Catalog.dragon
  exact ⟨hpermuted, hpermuted.sameCounts, hlengths _ hpermuted.sameCounts 5,
    (hlimits _ hpermuted 29 3 _).mp rfl⟩

end Grammar

end Lindenmayer
