import Lindenmayer.Grammar.Catalog
import Lindenmayer.Proofs.Grammar.Limit
import Lindenmayer.Proofs.Rules.Entries
import Lindenmayer.Turtle.Curve
import Mathlib.Logic.Equiv.Basic

/-! Renaming of symbols. A permutation of the symbols goes through rewriting into every generation, and
no word changes its length by it. The turtle does not see it as long as it leaves the commands alone. -/

namespace Lindenmayer

namespace RuleTable

variable {p : Equiv.Perm Symbol} {t u : RuleTable}

/-- The second table has the rules of the first with all symbols renamed, in any order. -/
def Renamed (p : Equiv.Perm Symbol) (t u : RuleTable) : Prop :=
  u.entries.Perm (t.entries.map fun e => (e.1.map p, e.2.map p))

namespace Renamed

lemma get?_map (h : Renamed p t u) (k : Word) : u.get? (k.map p) = (t.get? k).map (List.map p) := by
  refine Option.ext fun w => ?_
  rw [get?_eq_some_iff, h.mem_iff, List.mem_map, Option.map_eq_some_iff]
  constructor
  · rintro ⟨e, he, hkw⟩
    obtain ⟨hk, rfl⟩ := Prod.mk.inj hkw
    obtain rfl := List.map_injective_iff.mpr p.injective hk
    exact ⟨e.2, get?_eq_some_iff.mpr he, rfl⟩
  · rintro ⟨v, hv, rfl⟩
    exact ⟨(k, v), get?_eq_some_iff.mp hv, rfl⟩

lemma replacement (h : Renamed p t u) (c : Symbol) :
    u.replacement (p c) = (t.replacement c).map p := by
  have hget := h.get?_map [c]
  rw [List.map_singleton] at hget
  rw [RuleTable.replacement, RuleTable.replacement, hget]
  cases t.get? [c] <;> rfl

lemma rewrite (h : Renamed p t u) (w : Word) : u.rewrite (w.map p) = (t.rewrite w).map p := by
  rw [RuleTable.rewrite, RuleTable.rewrite, List.flatMap_map, List.map_flatMap]
  exact congrArg w.flatMap (funext h.replacement)

lemma generation (h : Renamed p t u) (n : ℕ) (w : Word) :
    u.generation n (w.map p) = (t.generation n w).map p := by
  induction n generalizing w with
  | zero => rfl
  | succ n ih => rw [RuleTable.generation, RuleTable.generation, h.rewrite, ih]

lemma expandWithin (h : Renamed p t u) (limit : ℤ) (w : Word) (n : ℤ) :
    u.expandWithin limit (w.map p) n = (t.expandWithin limit w n).map (List.map p) := by
  have hlength {v w : Word} (hvw : v.map p = w) : v.length = w.length :=
    hvw ▸ (List.length_map p).symm
  have hmap := expandWithin_map (List.map p) id hlength (fun k => (h.generation k w).symm) limit n
  rw [hmap, Except.map_id]
  rfl

lemma expand (h : Renamed p t u) (w : Word) (n : ℤ) :
    u.expand (w.map p) n = (t.expand w n).map (List.map p) := by
  cases n with
  | negSucc n => rfl
  | ofNat n => exact congrArg Except.ok (h.generation n w)

end Renamed

end RuleTable

def FixesCommands (p : Equiv.Perm Symbol) : Prop :=
  ∀ c ∈ (['[', ']', '+', '-', 'f'] : Word), p c = c

lemma Command.ofSymbol_apply {p : Equiv.Perm Symbol} (hp : FixesCommands p) (c : Symbol) :
    ofSymbol (p c) = ofSymbol c := by
  -- No other symbol is renamed to a command, because the command is renamed to itself.
  have hiff {d : Symbol} (hd : d ∈ (['[', ']', '+', '-', 'f'] : Word)) : p c = d ↔ c = d := by
    rw [← p.injective.eq_iff (a := c), hp d hd]
  simp only [ofSymbol, hiff (d := 'f') (by simp), hiff (d := '+') (by simp),
    hiff (d := '-') (by simp), hiff (d := '[') (by simp), hiff (d := ']') (by simp)]

lemma Word.commands_map {p : Equiv.Perm Symbol} (hp : FixesCommands p) (w : Word) :
    Word.commands (w.map p) = w.commands := by
  rw [commands, commands, List.map_map]
  exact List.map_congr_left fun c _ => Command.ofSymbol_apply hp c

namespace Grammar

variable {p : Equiv.Perm Symbol} {g g' : Grammar}

structure Renamed (p : Equiv.Perm Symbol) (g g' : Grammar) : Prop where
  rules : g.rules.Renamed p g'.rules
  seed : g'.seed = g.seed.map p
  angle : g'.angle = g.angle

lemma Renamed.expand (h : g.Renamed p g') (n : ℤ) (limit : Option ℤ) :
    g'.expand (some n) limit = (g.expand (some n) limit).map (List.map p) := by
  simp only [Grammar.expand, h.seed]
  cases limit with
  | none => exact h.rules.expand g.seed n
  | some limit => exact h.rules.expandWithin limit g.seed n

lemma Renamed.curve (hp : FixesCommands p) (h : g.Renamed p g') (n : ℤ) (limit : Option ℤ) :
    g'.curve (some n) limit = g.curve (some n) limit := by
  rw [Grammar.curve, Grammar.curve, h.expand, h.angle]
  cases g.expand (some n) limit with
  | error e => rfl
  | ok w => simp only [Except.map, Word.commands_map hp]

lemma curve_none (g : Grammar) (limit : Option ℤ) :
    g.curve none limit = g.curve (some g.defaultIterations) limit := rfl

/-- The names of the symbols that are no commands do not matter: a renamed grammar has the same curve,
or fails for the same reason at the same place. -/
theorem curve_renamed (hp : FixesCommands p) (h : g.Renamed p g') :
    (∀ (n : ℤ) (limit : Option ℤ), g'.curve (some n) limit = g.curve (some n) limit) ∧
      (g'.iterations = g.iterations → ∀ limit, g'.curve none limit = g.curve none limit) := by
  refine ⟨h.curve hp, fun hiterations limit => ?_⟩
  have hdefault : g'.defaultIterations = g.defaultIterations := by
    rw [defaultIterations, defaultIterations, hiterations]
  rw [curve_none, curve_none, hdefault]
  exact h.curve hp g.defaultIterations limit

/-- The dragon with its two symbols in each other's place. -/
def crossedDragon : Grammar where
  rules := Catalog.rulesOf [("x", "-fy-x"), ("y", "y+xf+")]
  seed := "fy"
  angle := 90
  iterations := some 10

theorem curve_crossedDragon :
    FixesCommands (Equiv.swap (.char 'x') (.char 'y')) ∧
      Catalog.dragon.Renamed (Equiv.swap (.char 'x') (.char 'y')) crossedDragon ∧
      crossedDragon.curve (some 3) (some 30) = Catalog.dragon.curve (some 3) (some 30) ∧
      crossedDragon.curve (some 3) (some 29) = .error (.expansion (.tooLong 29 3 3)) ∧
      crossedDragon.curve none none = Catalog.dragon.curve none none := by
  have hp : FixesCommands (Equiv.swap (.char 'x') (.char 'y')) := by
    simp [FixesCommands, Equiv.swap_apply_def]
  have h : Catalog.dragon.Renamed (Equiv.swap (.char 'x') (.char 'y')) crossedDragon := by
    refine ⟨?_, by decide, rfl⟩
    unfold RuleTable.Renamed
    decide
  obtain ⟨hcurve, hdefault⟩ := curve_renamed hp h
  exact ⟨hp, h, hcurve 3 (some 30), (hcurve 3 (some 29)).trans rfl, hdefault rfl none⟩

end Grammar

end Lindenmayer
