import Lindenmayer.Grammar.Catalog
import Lindenmayer.Proofs.Grammar.Limit
import Lindenmayer.Proofs.Grammar.Morphism
import Lindenmayer.Proofs.Rules.Entries
import Mathlib.Order.Monotone.Basic

/-! Grammars that erase no symbol. Their generations never get shorter, so the last one alone decides
whether an expansion stays within a limit. -/

namespace Lindenmayer

namespace RuleTable

/-- A key of several symbols may have an empty replacement, since nothing is ever rewritten by it. -/
def NonErasing (t : RuleTable) : Prop := ∀ e ∈ t.entries, e.1.length = 1 → e.2 ≠ []

instance (t : RuleTable) : Decidable t.NonErasing :=
  List.decidableBAll (fun e : Word × Word ↦ e.1.length = 1 → e.2 ≠ []) t.entries

namespace NonErasing

variable {t : RuleTable} {seed : Word}

lemma one_le_length_replacement (ht : t.NonErasing) (c : Symbol) :
    1 ≤ (t.replacement c).length := by
  obtain hkeep | hmem := t.replacement_eq_or_mem c
  · rw [hkeep]
    exact Nat.le_refl 1
  · exact List.length_pos_iff.mpr (ht _ hmem rfl)

lemma length_le_rewrite (ht : t.NonErasing) (w : Word) : w.length ≤ (t.rewrite w).length := by
  induction w with
  | nil => exact Nat.le_refl 0
  | cons c w ih =>
    rw [rewrite_cons, List.length_append, List.length_cons, Nat.add_comm]
    exact Nat.add_le_add (ht.one_le_length_replacement c) ih

lemma length_generation_mono (ht : t.NonErasing) (seed : Word) :
    Monotone fun n => (t.generation n seed).length :=
  monotone_nat_of_le_succ fun n => by
    rw [generation_succ]
    exact ht.length_le_rewrite _

lemma exists_expandWithin_iff (ht : t.NonErasing) {limit : ℤ} (hlimit : 0 < limit) {n : ℕ}
    (hn : 1 ≤ n) :
    (∃ w, t.expandWithin limit seed n = .ok w) ↔ (t.generation n seed).length ≤ limit := by
  simp only [expandWithin_eq_ok_iff t seed hlimit]
  constructor
  · rintro ⟨_, -, hfit⟩
    exact hfit n hn (Nat.le_refl n)
  · intro hlast
    refine ⟨_, rfl, fun k _ hkn => ?_⟩
    have hle := ht.length_generation_mono seed hkn
    exact (Int.ofNat_le.mpr hle).trans hlast

end NonErasing

end RuleTable

namespace Grammar

/-- If no symbol is erased, lengths never go down, and an expansion stays within a limit just when its
last generation does. One that fails does so at the same generation for any higher count; one that
does not fail gives the same word within any higher limit. -/
theorem expandWithin_nonErasing {g : Grammar} (hg : g.rules.NonErasing) :
    (∀ m n : ℕ, m ≤ n → ∃ v w, g.Expands m v ∧ g.Expands n w ∧ v.length ≤ w.length) ∧
    ∀ limit > 0, ∀ n : ℕ,
      (1 ≤ n → ((∃ w, g.rules.expandWithin limit g.seed n = .ok w) ↔
        ∃ w, g.Expands n w ∧ w.length ≤ limit)) ∧
      (∀ e, g.rules.expandWithin limit g.seed n = .error e →
        ∃ k, e = .tooLong limit k n ∧ ∀ n' : ℕ, n ≤ n' →
          g.rules.expandWithin limit g.seed n' = .error (.tooLong limit k n')) ∧
      ∀ w, g.rules.expandWithin limit g.seed n = .ok w →
        ∀ limit', limit ≤ limit' → g.rules.expandWithin limit' g.seed n = .ok w := by
  refine ⟨fun m n hmn => ?lengths, fun limit hlimit n => ⟨fun hn => ?last, fun e he => ?counts,
    fun w hw limit' hle => ?limits⟩⟩
  case lengths =>
    exact ⟨_, _, expands_iff.mpr rfl, expands_iff.mpr rfl, hg.length_generation_mono g.seed hmn⟩
  case last =>
    rw [hg.exists_expandWithin_iff hlimit hn]
    simp only [expands_iff, exists_eq_left']
  case counts =>
    obtain ⟨k, -, rfl⟩ := (RuleTable.expandWithin_eq_error_iff _ _ hlimit).mp he
    exact ⟨k, rfl, fun n' hn' => RuleTable.expandWithin_error_of_le _ _ hlimit hn' he⟩
  case limits => exact RuleTable.expandWithin_of_limit_le _ _ hlimit hle hw

/-- Lengths are the Fibonacci numbers. The pair of symbols with an empty replacement is no symbol. -/
def algae : Grammar where
  rules := Catalog.rulesOf [("a", "ab"), ("b", "a"), ("ab", "")]
  seed := "a"
  angle := 90

theorem expandWithin_algae :
    algae.rules.NonErasing ∧
      (∃ v w, algae.Expands 3 v ∧ algae.Expands 5 w ∧ v.length ≤ w.length) ∧
      (∃ w, algae.rules.expandWithin 13 algae.seed (5 : ℕ) = .ok w ∧
        algae.rules.expandWithin 20 algae.seed (5 : ℕ) = .ok w) ∧
      algae.rules.expandWithin 7 algae.seed (4 : ℕ) = .error (.tooLong 7 4 4) ∧
      algae.rules.expandWithin 7 algae.seed (9 : ℕ) = .error (.tooLong 7 4 9) := by
  have halgae : algae.rules.NonErasing := by decide
  obtain ⟨hlengths, hwithin⟩ := expandWithin_nonErasing halgae
  obtain ⟨w, hw⟩ := ((hwithin 13 (by decide) 5).1 (by decide)).mpr ⟨_, rfl, by decide⟩
  have hhigher := (hwithin 13 (by decide) 5).2.2 w hw 20 (by decide)
  have hfails : algae.rules.expandWithin 7 algae.seed (4 : ℕ) = .error (.tooLong 7 4 4) := rfl
  obtain ⟨k, hk, hlater⟩ := (hwithin 7 (by decide) 4).2.1 _ hfails
  obtain rfl : 4 = k := by injection hk
  exact ⟨halgae, hlengths 3 5 (by decide), ⟨w, hw, hhigher⟩, hfails, hlater 9 (by decide)⟩

end Grammar

end Lindenmayer
