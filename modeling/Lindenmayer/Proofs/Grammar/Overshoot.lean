import Lindenmayer.Grammar.Catalog
import Lindenmayer.Proofs.Grammar.Limit
import Lindenmayer.Proofs.Grammar.Morphism
import Lindenmayer.Proofs.Rules.Entries

/-! How far an expansion within a limit overshoots. A generation has to be made before it is seen to be
too long, and so can be longer than the limit, but by no more than the longest replacement. -/

namespace Lindenmayer

/-- The words that were made on the way, first to last, and how it ended. -/
structure Making where
  built : List Word
  outcome : Except ExpansionError Word

namespace RuleTable

variable (t : RuleTable) (limit : Int) (seed : Word)

/-- An expansion within a limit that keeps the words it makes. -/
def make (n : Int) : Making :=
  let (outcome, built) := t.expandSeen (fun built w => built ++ [w]) [] limit seed n
  ⟨built, outcome⟩

/-- Each word made is the next generation, all but the last one are within the limit, and how it ends
tells their number. -/
lemma exists_expandFrom_eq (total left made : ℕ) (built : List Word) :
    ∃ k r, t.expandFrom (fun built w => built ++ [w]) limit total left made
        (t.generation made seed) built =
          (r, built ++ (List.range' (made + 1) k).map (t.generation · seed)) ∧
      (∀ j, made < j → j < made + k → (t.generation j seed).length ≤ limit) ∧
      (∀ w, r = .ok w → k = left) ∧ ∀ e, r = .error e → e = .tooLong limit (made + k) total := by
  -- The word in hand is the last generation made, so the next one is its rewriting.
  induction left generalizing made built with
  | zero =>
    exact ⟨0, _, Prod.ext rfl (List.append_nil built).symm, by omega, fun _ _ => rfl,
      fun e he => (by cases he)⟩
  | succ left ih =>
    rw [expandFrom, ← generation_succ]
    by_cases hfit : ((t.generation (made + 1) seed).length : Int) ≤ limit
    · obtain ⟨k, r, hmake, hbefore, hall, hfirst⟩ :=
        ih (made + 1) (built ++ [t.generation (made + 1) seed])
      rw [if_pos hfit, hmake]
      refine ⟨k + 1, r, ?_, fun j hj hjk => ?_, fun w hw => by rw [hall w hw], fun e he => ?_⟩
      · rw [List.range'_succ, List.map_cons, List.append_assoc, List.singleton_append]
      · obtain rfl | hj := Nat.eq_or_lt_of_le (Nat.succ_le_of_lt hj)
        · exact hfit
        · exact hbefore j hj (by omega)
      · rw [hfirst e he, Nat.add_right_comm, Nat.add_assoc]
    · rw [if_neg hfit]
      exact ⟨1, _, rfl, by omega, fun w hw => (by cases hw),
        fun e he => (Except.error.inj he).symm⟩

lemma exists_make_eq {limit : Int} (hlimit : 0 < limit) (n : ℕ) :
    ∃ k, t.make limit seed n =
        ⟨(List.range' 1 k).map (t.generation · seed), t.expandWithin limit seed n⟩ ∧
      (∀ j, 1 ≤ j → j < k → (t.generation j seed).length ≤ limit) ∧
      (∀ w, t.expandWithin limit seed n = .ok w → k = n) ∧
      ∀ e, t.expandWithin limit seed n = .error e → e = .tooLong limit k n := by
  obtain ⟨k, r, hmake, hbefore, hall, hfirst⟩ := t.exists_expandFrom_eq limit seed n n 0 []
  have hrun : t.expandSeen (fun built w => built ++ [w]) [] limit seed n =
      (r, (List.range' 1 k).map (t.generation · seed)) := by
    change (if limit ≤ 0 then _ else _) = _
    rw [if_neg (by omega)]
    exact hmake
  obtain rfl : r = t.expandWithin limit seed n := by rw [← t.expandSeen_fst, hrun]
  rw [Nat.zero_add] at hbefore hfirst
  exact ⟨k, by rw [make, hrun], hbefore, hall, hfirst⟩

/-- The length of the longest replacement of a symbol, if there is any. -/
def longest : ℕ :=
  ((t.entries.filter fun e => e.1.length = 1).map fun e => e.2.length).max?.getD 0

lemma length_replacement_le (c : Symbol) : (t.replacement c).length ≤ max 1 t.longest := by
  obtain hkeep | hmem := t.replacement_eq_or_mem c
  · rw [hkeep]
    exact Nat.le_max_left 1 _
  · have hkey : ([c], t.replacement c) ∈ t.entries.filter fun e => e.1.length = 1 :=
      List.mem_filter.mpr ⟨hmem, rfl⟩
    have hle : (t.replacement c).length ≤ t.longest :=
      List.le_max?_getD_of_mem (List.mem_map.mpr ⟨_, hkey, rfl⟩)
    exact hle.trans (Nat.le_max_right 1 _)

lemma length_rewrite_le (w : Word) : (t.rewrite w).length ≤ max 1 t.longest * w.length := by
  induction w with
  | nil => exact Nat.zero_le _
  | cons c w ih =>
    rw [rewrite_cons, List.length_append, List.length_cons, Nat.mul_succ, Nat.add_comm]
    exact Nat.add_le_add ih (t.length_replacement_le c)

/-- The bound holds up to the first generation that is too long, since each is made from one that is
not too long or from the seed. -/
lemma length_generation_le {k : ℕ}
    (hfit : ∀ j, 1 ≤ j → j < k → (t.generation j seed).length ≤ limit) {j : ℕ} (hj : 1 ≤ j)
    (hjk : j ≤ k) :
    ((t.generation j seed).length : ℤ) ≤ max 1 t.longest * max limit seed.length := by
  obtain ⟨i, rfl⟩ := Nat.exists_eq_add_of_le' hj
  have hbefore : ((t.generation i seed).length : ℤ) ≤ max limit seed.length := by
    cases i with
    | zero => exact le_max_right _ _
    | succ i => exact (hfit (i + 1) (by omega) (by omega)).trans (le_max_left _ _)
  have hstep : ((t.rewrite (t.generation i seed)).length : ℤ) ≤
      max 1 t.longest * (t.generation i seed).length := by
    exact_mod_cast t.length_rewrite_le (t.generation i seed)
  rw [generation_succ]
  exact hstep.trans (Int.mul_le_mul_of_nonneg_left hbefore (by omega))

end RuleTable

namespace Grammar

def making (g : Grammar) (limit n : ℤ) : Making := g.rules.make limit g.seed n

/-- An expansion within a limit makes the generations in order, all of them or up to the first that is
too long, and no word is longer than the longest replacement allows for one within the limit or for
the seed. -/
theorem making_overshoot (g : Grammar) {limit : ℤ} (hlimit : 0 < limit) (n : ℕ) :
    ∃ built, g.making limit n = ⟨built, g.rules.expandWithin limit g.seed n⟩ ∧
      List.Forall₂ g.Expands (List.range' 1 built.length) built ∧
      (∀ w, g.rules.expandWithin limit g.seed n = .ok w → built.length = n) ∧
      (∀ e, g.rules.expandWithin limit g.seed n = .error e → e = .tooLong limit built.length n) ∧
      (∀ w ∈ g.seed :: built, w.length ≤ max 1 g.rules.longest * max limit g.seed.length) ∧
      ∀ w ∈ built.dropLast, w.length ≤ limit := by
  obtain ⟨k, hmake, hfit, hall, hfirst⟩ := g.rules.exists_make_eq g.seed hlimit n
  have hlength : ((List.range' 1 k).map (g.rules.generation · g.seed)).length = k := by
    rw [List.length_map, List.length_range']
  refine ⟨_, hmake, ?order, ?all, ?first, List.forall_mem_cons.mpr ⟨?seed, ?bound⟩, ?last⟩
  case order =>
    rw [hlength, List.forall₂_map_right_iff]
    exact List.forall₂_same.mpr fun j _ => expands_iff.mpr rfl
  case all => rwa [hlength]
  case first => rwa [hlength]
  case seed =>
    calc (g.seed.length : ℤ) ≤ max limit g.seed.length := le_max_right _ _
      _ = 1 * max limit g.seed.length := (Int.one_mul _).symm
      _ ≤ max 1 g.rules.longest * max limit g.seed.length :=
        Int.mul_le_mul_of_nonneg_right (by omega) (by omega)
  case bound =>
    refine List.forall_mem_map.mpr fun j hj => ?_
    obtain ⟨hj, hjk⟩ := List.mem_range'_1.mp hj
    exact g.rules.length_generation_le limit g.seed hfit hj (by omega)
  case last =>
    rw [← List.map_dropLast]
    refine List.forall_mem_map.mpr fun j hj => ?_
    cases k with
    | zero => cases hj
    | succ k =>
      rw [List.range'_1_concat, List.dropLast_concat] at hj
      obtain ⟨hj, hjk⟩ := List.mem_range'_1.mp hj
      exact hfit j hj (by omega)

/-- The seed is longer than the limit, and the longest rule is for no symbol. -/
def bursting : Grammar where
  rules := Catalog.rulesOf [("a", "aaa"), ("b", ""), ("ab", "aaaaaaaa")]
  seed := "bbbbbba"
  angle := 90

theorem making_bursting :
    (0 : ℤ) < 5 ∧ bursting.rules.longest = 3 ∧
      ∃ built, bursting.making 5 (4 : ℕ) = ⟨built, .error (.tooLong 5 2 4)⟩ ∧
        List.Forall₂ bursting.Expands [1, 2] built ∧
        (∀ w ∈ bursting.seed :: built, (w.length : ℤ) ≤ 3 * 7) ∧
        ∀ w ∈ built.dropLast, (w.length : ℤ) ≤ 5 := by
  have hlimit : (0 : ℤ) < 5 := by decide
  have hrun : bursting.rules.expandWithin 5 bursting.seed (4 : ℕ) = .error (.tooLong 5 2 4) := rfl
  obtain ⟨built, hmake, horder, -, hfirst, hbound, hlast⟩ := making_overshoot bursting hlimit 4
  obtain hlength : 2 = built.length := by injection hfirst _ hrun
  rw [← hlength] at horder
  exact ⟨hlimit, rfl, built, hmake.trans (by rw [hrun]), horder, hbound, hlast⟩

end Grammar

end Lindenmayer
