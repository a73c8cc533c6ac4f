import Lindenmayer.Proofs.Rules.Entries
import Lindenmayer.Proofs.Text.Symbol
import Mathlib.Data.List.Perm.Subperm

/-! Tables as finite maps. Those with the same entries in any order are the same map, and their entries
sorted by key are one list. -/

namespace Lindenmayer.RuleTable

-- The core order of words, whatever else is imported.
attribute [local instance (2000)] List.instLE List.decidableLE

variable {t u : RuleTable}

lemma nodup_entries (t : RuleTable) : t.entries.Nodup := t.nodup.of_map Prod.fst

lemma perm_entries_iff : t.entries.Perm u.entries ↔ ∀ k, t.get? k = u.get? k := by
  rw [List.perm_ext_iff_of_nodup t.nodup_entries u.nodup_entries]
  constructor
  · intro h k
    refine Option.ext fun v => ?_
    rw [get?_eq_some_iff, get?_eq_some_iff]
    exact h (k, v)
  · rintro h ⟨k, v⟩
    rw [← get?_eq_some_iff, ← get?_eq_some_iff, h]

lemma agree_iff : t.agree u = true ↔ ∀ k, t.get? k = u.get? k := by
  simp only [agree, size, Bool.and_eq_true, beq_iff_eq, List.all_eq_true, get?_eq_some_iff,
    ← perm_entries_iff]
  constructor
  · rintro ⟨hsize, hmem⟩
    exact (List.subperm_of_subset t.nodup_entries hmem).perm_of_length_le (Nat.le_of_eq hsize.symm)
  · intro h
    exact ⟨h.length_eq, fun e he => h.subset he⟩

def sortedEntries (t : RuleTable) : List (Word × Word) :=
  t.entries.mergeSort fun a b => decide (a.1 ≤ b.1)

lemma sortedEntries_perm (t : RuleTable) : t.sortedEntries.Perm t.entries := List.mergeSort_perm _ _

lemma pairwise_sortedEntries (t : RuleTable) : t.sortedEntries.Pairwise fun a b => a.1 ≤ b.1 := by
  have hsorted : t.sortedEntries.Pairwise fun a b => decide (a.1 ≤ b.1) = true := by
    refine List.pairwise_mergeSort (fun a b c hab hbc => ?_) (fun a b => ?_) t.entries
    · rw [decide_eq_true_eq] at *
      exact List.le_trans hab hbc
    · rw [Bool.or_eq_true, decide_eq_true_eq, decide_eq_true_eq]
      exact List.le_total a.1 b.1
  exact hsorted.imp decide_eq_true_eq.mp

/-- The sorted entries of tables that are one map are one list, as no two of them share a key. -/
lemma sortedEntries_eq_iff : t.sortedEntries = u.sortedEntries ↔ ∀ k, t.get? k = u.get? k := by
  rw [← perm_entries_iff]
  constructor
  · intro h
    exact t.sortedEntries_perm.symm.trans (h ▸ u.sortedEntries_perm)
  · intro h
    refine List.Perm.eq_of_pairwise (fun a b ha hb hab hba => ?_) t.pairwise_sortedEntries
      u.pairwise_sortedEntries (t.sortedEntries_perm.trans (h.trans u.sortedEntries_perm.symm))
    have hb' : b ∈ t.entries := h.symm.subset (u.sortedEntries_perm.subset hb)
    exact List.inj_on_of_nodup_map t.nodup (t.sortedEntries_perm.subset ha) hb'
      (List.le_antisymm hab hba)

end Lindenmayer.RuleTable
