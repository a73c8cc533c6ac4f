import Lindenmayer.Grammar.Basic
import Mathlib.Data.List.Forall2

/-! Expansion is an action. The numbers of generations add up, and each number of them is a morphism of
words: it takes a seed apart into its symbols, and the generation on the outside may come first or last. -/

namespace Lindenmayer

lemma RuleTable.rewrite_cons (t : RuleTable) (c : Symbol) (w : Word) :
    t.rewrite (c :: w) = t.replacement c ++ t.rewrite w := List.flatMap_cons

lemma RuleTable.generation_eq_flatMap (t : RuleTable) (n : ℕ) (w : Word) :
    t.generation n w = w.flatMap fun c => t.generation n [c] := by
  induction w with
  | nil =>
    induction n with
    | zero => rfl
    | succ n ih => exact ih
  | cons c w ih => rw [List.flatMap_cons, ← ih, ← generation_append, List.singleton_append]

lemma RuleTable.generation_of_fixed {t : RuleTable} {c : Symbol} (h : t.replacement c = [c])
    (n : ℕ) : t.generation n [c] = [c] := by
  induction n with
  | zero => rfl
  | succ n ih => rw [generation, rewrite_cons, h, rewrite_nil, List.append_nil, ih]

namespace Grammar

def withSeed (g : Grammar) (w : Word) : Grammar := { g with seed := w }

def Expands (g : Grammar) (n : ℕ) (w : Word) : Prop := g.rules.expand g.seed n = .ok w

lemma expands_iff {g : Grammar} {n : ℕ} {w : Word} :
    g.Expands n w ↔ g.rules.generation n g.seed = w :=
  ⟨Except.ok.inj, congrArg Except.ok⟩

/-- Every expansion gives one word. It may be cut between generations, and its seed may be cut into two
words or into its symbols. -/
theorem expands_add_append (g : Grammar) (m n : ℕ) :
    (∃ w w', g.Expands m w ∧ (g.withSeed w).Expands n w' ∧ g.Expands (m + n) w') ∧
    (∀ u v, g.seed = u ++ v → ∃ a b, (g.withSeed u).Expands n a ∧ (g.withSeed v).Expands n b ∧
      g.Expands n (a ++ b)) ∧
    (∃ ws, List.Forall₂ (fun c w => (g.withSeed [c]).Expands n w) g.seed ws ∧
      g.Expands n ws.flatten) ∧
    ∃ w, g.Expands n w ∧ g.Expands (n + 1) (g.rules.rewrite w) ∧
      (g.withSeed (g.rules.rewrite g.seed)).Expands n (g.rules.rewrite w) := by
  simp only [expands_iff]
  refine ⟨?generations, fun u v huv => ?cut, ?symbols, ?outermost⟩
  case generations => exact ⟨_, _, rfl, rfl, g.rules.generation_add m n g.seed⟩
  case cut =>
    refine ⟨_, _, rfl, rfl, ?_⟩
    rw [huv]
    exact g.rules.generation_append n u v
  case symbols =>
    refine ⟨g.seed.map fun c => g.rules.generation n [c], ?_, ?_⟩
    · exact List.forall₂_map_right_iff.mpr (List.forall₂_same.mpr fun c _ => rfl)
    · rw [g.rules.generation_eq_flatMap, List.flatMap_def]
  case outermost =>
    -- That the outermost generation comes first is how generations are made.
    have hlast := g.rules.generation_succ n g.seed
    exact ⟨_, rfl, hlast, hlast⟩

/-- A symbol that brings forth another one, which is erased. -/
def shedding : Grammar where
  rules := .ofList [("a", "bfa"), ("b", "")]
  seed := "aba"
  angle := 90

theorem expands_shedding_cut :
    shedding.seed = ("ab" : Word) ++ ("a" : Word) ∧
      ∃ a b, (shedding.withSeed "ab").Expands 2 a ∧ (shedding.withSeed "a").Expands 2 b ∧
        shedding.Expands 2 (a ++ b) ∧ a = ("fbfa" : Word) := by
  have hseed : shedding.seed = ("ab" : Word) ++ ("a" : Word) := rfl
  obtain ⟨a, b, ha, hb, hab⟩ := (expands_add_append shedding 1 2).2.1 _ _ hseed
  exact ⟨hseed, a, b, ha, hb, hab, (expands_iff.mp ha).symm⟩

end Grammar

end Lindenmayer
