import Lindenmayer.Proofs.Grammar.Balance
import Lindenmayer.Proofs.Grammar.Morphism
import Lindenmayer.Proofs.Turtle.Continuation

/-! Prolongable grammars. If the seed begins its own rewriting, every generation begins all later ones,
and the curves of the generations begin each other. -/

namespace Lindenmayer

namespace RuleTable

variable {t : RuleTable} {u w : Word}

lemma rewrite_isPrefix (t : RuleTable) (h : u <+: w) : t.rewrite u <+: t.rewrite w := by
  obtain ⟨rest, rfl⟩ := h
  rw [rewrite_append]
  exact List.prefix_append _ _

lemma generation_isPrefix (h : w <+: t.rewrite w) {m n : ℕ} (hmn : m ≤ n) :
    t.generation m w <+: t.generation n w := by
  have hsucc (k : ℕ) : t.generation k w <+: t.generation (k + 1) w := by
    induction k with
    | zero => exact h
    | succ k ih =>
      rw [t.generation_succ k, t.generation_succ (k + 1)]
      exact t.rewrite_isPrefix ih
  induction n, hmn using Nat.le_induction with
  | base => exact List.prefix_refl _
  | succ n _ ih => exact ih.trans (hsucc n)

end RuleTable

namespace Grammar

def Prolongable (g : Grammar) : Prop := g.seed <+: g.rules.rewrite g.seed

lemma expand_of_le {g : Grammar} {limit : Option Int} {m n : ℕ} {w : Word} (hmn : m ≤ n)
    (h : g.expand (some n) limit = .ok w) :
    g.expand (some m) limit = .ok (g.rules.generation m g.seed) := by
  cases limit with
  | none => rfl
  | some l => exact RuleTable.expandWithin_of_le hmn h

/-- The generations of a prolongable grammar begin each other, and so do their curves: if a later one
can be drawn with numbers only, so can an earlier one. -/
theorem expand_curve_prolonged {g : Grammar} (hg : g.Prolongable) {m n : ℕ} (hmn : m ≤ n) :
    ∃ v w, g.Expands m v ∧ g.Expands n w ∧ v <+: w ∧
      ∀ limit d', g.curve (some n) limit = .ok d' → (∀ p ∈ d'.points, p.IsNumber) →
        ∃ d, g.curve (some m) limit = .ok d ∧ (∀ p ∈ d.points, p.IsNumber) ∧
          d.Begins (v.count (.char ']')) d' := by
  have hfront := RuleTable.generation_isPrefix hg hmn
  refine ⟨_, _, expands_iff.mpr rfl, expands_iff.mpr rfl, hfront, fun limit d' hd' hnumber => ?_⟩
  obtain ⟨w, hw, htrace'⟩ := curve_eq_ok_iff.mp hd'
  obtain rfl := generation_of_expand hw
  obtain ⟨d, htrace, hpoints, hbegins⟩ := trace_of_isPrefix hfront htrace'
  have hd := curve_eq_ok_iff.mpr ⟨_, expand_of_le hmn hw, htrace⟩
  exact ⟨d, hd, fun p hp => hnumber p (hpoints hp), hbegins⟩

/-- A stem that puts out a branch at each of its steps. -/
def stem : Grammar where
  rules := .ofList [(['f'], ['f', '[', '+', 'f', ']', 'f'])]
  seed := ['f']
  angle := 90

theorem curve_stem_prolonged :
    stem.Prolongable ∧ 1 ≤ 2 ∧
      ∃ d d', stem.curve (some (1 : ℕ)) none = .ok d ∧ stem.curve (some (2 : ℕ)) none = .ok d' ∧
        (∀ p ∈ d'.points, p.IsNumber) ∧ (∀ p ∈ d.points, p.IsNumber) ∧ d.Begins 1 d' := by
  have hstem : stem.Prolongable := ⟨['[', '+', 'f', ']', 'f'], rfl⟩
  obtain ⟨v, w, hv, -, -, hcurve⟩ := expand_curve_prolonged hstem (show 1 ≤ 2 by decide)
  have hcount : v.count (.char ']') = 1 := by
    rw [← expands_iff.mp hv]
    rfl
  have hrun : (stem.curve (some (2 : ℕ)) none).toOption.any (fun d =>
      d.points.all fun p => !p.1.isNaN && !p.2.isNaN) = true := by
    decide +kernel
  cases hd' : stem.curve (some (2 : ℕ)) none with
  | error e =>
    rw [hd'] at hrun
    cases hrun
  | ok d' =>
    have hnumber : ∀ p ∈ d'.points, p.IsNumber := by
      rw [hd'] at hrun
      simpa [Except.toOption, Point.IsNumber] using hrun
    obtain ⟨d, hd, hnumber', hbegins⟩ := hcurve none d' hd' hnumber
    rw [hcount] at hbegins
    exact ⟨hstem, by decide, d, d', hd, rfl, hnumber, hnumber', hbegins⟩

end Grammar

end Lindenmayer
