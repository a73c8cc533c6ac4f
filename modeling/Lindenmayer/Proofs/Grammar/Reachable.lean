import Lindenmayer.Grammar.Catalog
import Lindenmayer.Proofs.Grammar.Limit
import Lindenmayer.Proofs.Rules.Entries
import Mathlib.Data.List.Basic

/-! Symbols that can come from a seed. No generation of the seed has any others, so that tables which
replace these symbols alike expand the seed alike, within any limit. -/

namespace Lindenmayer

namespace RuleTable

inductive Reachable (t : RuleTable) (seed : Word) : Symbol → Prop
  | seed {c : Symbol} (hc : c ∈ seed) : Reachable t seed c
  | replacement {b c : Symbol} (hb : Reachable t seed b) (hc : c ∈ t.replacement b) :
    Reachable t seed c

variable {t u : RuleTable} {seed w : Word}

def Closed (t : RuleTable) (seed : Word) (s : Set Symbol) : Prop :=
  (∀ c ∈ seed, c ∈ s) ∧ ∀ b ∈ s, ∀ c ∈ t.replacement b, c ∈ s

lemma isLeast_reachable (t : RuleTable) (seed : Word) :
    IsLeast {s | t.Closed seed s} {c | t.Reachable seed c} := by
  refine ⟨⟨fun c hc => .seed hc, fun b hb c hc => .replacement hb hc⟩, fun s hs c hc => ?_⟩
  induction hc with
  | seed hc => exact hs.1 _ hc
  | replacement _ hc ih => exact hs.2 _ ih _ hc

lemma reachable_of_mem_rewrite (hw : ∀ c ∈ w, t.Reachable seed c) {c : Symbol}
    (hc : c ∈ t.rewrite w) : t.Reachable seed c := by
  obtain ⟨b, hb, hc⟩ := List.mem_flatMap.mp hc
  exact .replacement (hw b hb) hc

lemma reachable_of_mem_generation {n : ℕ} {c : Symbol} (hc : c ∈ t.generation n seed) :
    t.Reachable seed c := by
  induction n generalizing c with
  | zero => exact .seed hc
  | succ n ih =>
    rw [generation_succ] at hc
    exact reachable_of_mem_rewrite (fun b hb => ih hb) hc

lemma rewrite_congr (h : ∀ c ∈ w, t.replacement c = u.replacement c) :
    t.rewrite w = u.rewrite w := List.flatMap_congr h

lemma generation_congr (h : ∀ c, t.Reachable seed c → t.replacement c = u.replacement c) (n : ℕ) :
    t.generation n seed = u.generation n seed := by
  -- All symbols of the generations of the first table are reachable, so the second does as the first.
  induction n with
  | zero => rfl
  | succ n ih =>
    rw [generation_succ, generation_succ, ← ih]
    exact rewrite_congr fun c hc => h c (reachable_of_mem_generation hc)

def ExpandsAlike (t u : RuleTable) (seed : Word) : Prop :=
  ∀ n : ℤ, t.expand seed n = u.expand seed n ∧
    ∀ limit : ℤ, t.expandWithin limit seed n = u.expandWithin limit seed n

lemma ExpandsAlike.of_generation (h : ∀ n, t.generation n seed = u.generation n seed) :
    t.ExpandsAlike u seed := by
  refine fun n => ⟨?_, fun limit => ?_⟩
  · cases n with
    | negSucc n => rfl
    | ofNat n => exact congrArg Except.ok (h n)
  · have hmap := expandWithin_map id id (congrArg List.length) h limit n
    rwa [Except.map_id] at hmap

/-- A rule that changes a symbol which can come from the seed is in both tables or in neither. -/
def SameLiveRules (t u : RuleTable) (seed : Word) : Prop :=
  ∀ c w, t.Reachable seed c → w ≠ [c] → (([c], w) ∈ t.entries ↔ ([c], w) ∈ u.entries)

lemma mem_entries_iff_replacement {c : Symbol} (hw : w ≠ [c]) :
    ([c], w) ∈ t.entries ↔ t.replacement c = w := by
  rw [← get?_eq_some_iff, replacement]
  cases t.get? [c] with
  | none => exact ⟨nofun, fun h => absurd h.symm hw⟩
  | some v => exact Option.some_inj

lemma SameLiveRules.replacement (h : t.SameLiveRules u seed) {c : Symbol}
    (hc : t.Reachable seed c) : t.replacement c = u.replacement c := by
  have hiff {w : Word} (hw : w ≠ [c]) : t.replacement c = w ↔ u.replacement c = w := by
    rw [← mem_entries_iff_replacement hw, h c w hc hw, mem_entries_iff_replacement hw]
  by_cases ht : t.replacement c = [c]
  · by_cases hu : u.replacement c = [c]
    · rw [ht, hu]
    · exact (hiff hu).mpr rfl
  · exact ((hiff ht).mp rfl).symm

/-- Only the symbols that can come from the seed count, and of the rules only those that change them: no
rule for another symbol, none for a key of several symbols, none that keeps its symbol and no order of
the rules is seen in an expansion, nor in how it fails. -/
theorem expandsAlike_of_reachable (t u : RuleTable) (seed : Word) :
    ((∀ c, t.Reachable seed c → t.replacement c = u.replacement c) → t.ExpandsAlike u seed) ∧
      (t.SameLiveRules u seed → t.ExpandsAlike u seed) := by
  have halike (h : ∀ c, t.Reachable seed c → t.replacement c = u.replacement c) :
      t.ExpandsAlike u seed := .of_generation (generation_congr h)
  exact ⟨halike, fun h => halike fun c hc => h.replacement hc⟩

def sparse : RuleTable := Catalog.rulesOf [("a", "a+b"), ("b", "a")]

/-- The same in another order, with rules that are never seen. -/
def cluttered : RuleTable :=
  Catalog.rulesOf [("z", "zz"), ("b", "a"), ("+", "+"), ("ab", ""), ("a", "a+b")]

lemma sparse_closed : sparse.Closed ['a'] {.char 'a', .char '+', .char 'b'} := by
  refine ⟨by simp, ?_⟩
  rintro b (rfl | rfl | rfl) c hc
  · have hmem : c ∈ (['a', '+', 'b'] : Word) := hc
    simpa using hmem
  · have hmem : c ∈ (['+'] : Word) := hc
    simp [List.mem_singleton.mp hmem]
  · have hmem : c ∈ (['a'] : Word) := hc
    simp [List.mem_singleton.mp hmem]

theorem expandsAlike_cluttered :
    (∀ c, sparse.Reachable ['a'] c → sparse.replacement c = cluttered.replacement c) ∧
      sparse.SameLiveRules cluttered ['a'] ∧
      sparse.expand ['a'] 2 = cluttered.expand ['a'] 2 ∧
      sparse.expandWithin 6 ['a'] 3 = cluttered.expandWithin 6 ['a'] 3 ∧
      cluttered.expandWithin 6 ['a'] 3 = .error (.tooLong 6 3 3) := by
  have hreplacement (c : Symbol) (hc : sparse.Reachable ['a'] c) :
      sparse.replacement c = cluttered.replacement c := by
    obtain rfl | rfl | rfl := (isLeast_reachable sparse ['a']).2 sparse_closed hc <;> rfl
  have hlive : sparse.SameLiveRules cluttered ['a'] := by
    intro c w hc hw
    rw [mem_entries_iff_replacement hw, hreplacement c hc, mem_entries_iff_replacement hw]
  obtain ⟨hagree, hsame⟩ := expandsAlike_of_reachable sparse cluttered ['a']
  exact ⟨hreplacement, hlive, (hagree hreplacement 2).1, (hsame hlive 3).2 6, rfl⟩

end RuleTable

end Lindenmayer
