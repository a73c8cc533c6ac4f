import Lindenmayer.Grammar.Catalog
import Lindenmayer.Proofs.Grammar.Unbranched

/-! Edge rewriting in quarter turns. If the path put in the place of a step turns by full circles only,
the walk of the rewritten word is the old one scaled by the end of the path, a Gaussian integer, and
looks where the old one looks. -/

namespace Lindenmayer

namespace Stance

variable {z z' : GaussianInt} {s t u : Stance}

structure Scaled (z : GaussianInt) (s t : Stance) : Prop where
  place : t.place = z * s.place
  heading : t.heading ≡ s.heading [ZMOD 4]

namespace Scaled

lemma trans (h : Scaled z s t) (h' : Scaled z' t u) : Scaled (z' * z) s u where
  place := by rw [h'.place, h.place, mul_assoc]
  heading := h'.heading.trans h.heading

lemma obey (h : Scaled z s t) {c : Command} (hc : c ≠ .forward) :
    Scaled z (s.obey c) (t.obey c) := by
  cases c with
  | forward => exact absurd rfl hc
  | left => exact ⟨h.place, h.heading.add_right 1⟩
  | right => exact ⟨h.place, h.heading.sub_right 1⟩
  | save | restore | idle => exact h

/-- A path that ends at `z`, looking ahead, stands for a step that is `z` times as long. -/
lemma forward {path : List Command} (h : Scaled z s t) (hz : (origin.follow path).place = z)
    (hturns : (origin.follow path).heading ≡ 0 [ZMOD 4]) :
    Scaled z (s.obey .forward) (t.follow path) := by
  rw [follow_eq_carry]
  constructor
  · change t.place + direction t.heading * (origin.follow path).place =
      z * (s.place + direction s.heading)
    rw [hz, h.place, direction_of_modEq h.heading]
    ring
  · have hsum := h.heading.add hturns
    rwa [add_zero] at hsum

end Scaled

end Stance

namespace Grammar

/-- The steps forward are rewritten by one path, and nothing else is. -/
structure EdgeRewriting (g : Grammar) (w : Word) : Prop where
  entries : g.rules.entries = [([.char 'f'], w)]
  seed : g.seed.Unbranched
  path : w.Unbranched
  turns : (w.count (.char '+') : ℤ) - w.count (.char '-') ≡ 0 [ZMOD 4]

namespace EdgeRewriting

open Stance

variable {g : Grammar} {w : Word}

lemma unbranched (hg : g.EdgeRewriting w) : g.Unbranched where
  seed := hg.seed
  replacement := by
    rw [hg.entries]
    exact List.forall_mem_singleton.mpr hg.path

lemma replacement (hg : g.EdgeRewriting w) (c : Symbol) :
    g.rules.replacement c = if c = 'f' then w else [c] := by
  unfold RuleTable.replacement RuleTable.get?
  rw [hg.entries, RuleTable.lookup_cons_entry]
  by_cases hc : c = 'f' <;> simp [hc]

lemma heading_path (hg : g.EdgeRewriting w) :
    (origin.follow w.commands).heading ≡ 0 [ZMOD 4] := by
  have hleft : w.commands.count .left = w.count (.char '+') :=
    Word.count_commands (by grind [Command.ofSymbol]) w
  have hright : w.commands.count .right = w.count (.char '-') :=
    Word.count_commands (by grind [Command.ofSymbol]) w
  rw [heading_follow, hleft, hright]
  change 0 + _ ≡ 0 [ZMOD 4]
  rw [zero_add]
  exact hg.turns

lemma scaled_rewrite (hg : g.EdgeRewriting w) {s t : Stance} {z : GaussianInt}
    (hz : (origin.follow w.commands).place = z) (h : Scaled z s t) (v : Word) :
    Scaled z (s.follow v.commands) (t.follow (Word.commands (g.rules.rewrite v))) := by
  induction v generalizing s t with
  | nil => exact h
  | cons c v ih =>
    rw [RuleTable.rewrite_cons, Word.commands_append, follow_append, hg.replacement]
    by_cases hc : c = 'f'
    · subst hc
      rw [if_pos rfl]
      exact ih (h.forward hz hg.heading_path)
    · have hforward : Command.ofSymbol c ≠ .forward := by grind [Command.ofSymbol]
      rw [if_neg hc]
      exact ih (h.obey hforward)

lemma scaled_generation (hg : g.EdgeRewriting w) (n : ℕ) :
    Scaled ((origin.follow w.commands).place ^ n) (origin.follow g.seed.commands)
      (origin.follow (Word.commands (g.rules.generation n g.seed))) := by
  induction n with
  | zero => exact ⟨by rw [pow_zero, one_mul]; rfl, Int.ModEq.refl _⟩
  | succ n ih =>
    rw [RuleTable.generation_succ, pow_succ']
    have horigin : Scaled (origin.follow w.commands).place origin origin :=
      ⟨(mul_zero _).symm, Int.ModEq.refl _⟩
    exact ih.trans (hg.scaled_rewrite rfl horigin _)

end EdgeRewriting

lemma koch_edgeRewriting : Catalog.koch.EdgeRewriting "f+f-f-f+f" where
  entries := rfl
  seed := by decide
  path := by decide
  turns := by decide

lemma kochIsland_edgeRewriting : Catalog.kochIsland.EdgeRewriting "f+f-f-ff+f+f-f" where
  entries := rfl
  seed := by decide
  path := by decide
  turns := by decide

/-- Each generation of an edge rewriting ends at the end of the path times the end of the generation
before, and with the heading of the seed. So the Koch curve ends three times as far out each time, and
the island closes. -/
theorem expand_scaled :
    (∀ (g : Grammar) (w : Word), g.EdgeRewriting w → ∀ n : ℕ, ∃ v seed path d,
      g.Expands n v ∧ quarterTrace g.seed.commands = .ok seed ∧
      quarterTrace w.commands = .ok path ∧ quarterTrace v.commands = .ok d ∧
      d.turtle.position.gaussian =
        path.turtle.position.gaussian ^ n * seed.turtle.position.gaussian ∧
      d.turtle.heading ≡ seed.turtle.heading [ZMOD 4]) ∧
    (∀ n : ℕ, ∃ v d, Catalog.koch.Expands n v ∧ quarterTrace v.commands = .ok d ∧
      d.turtle.position = (3 ^ n, 0)) ∧
    ∀ n : ℕ, ∃ v d, Catalog.kochIsland.Expands n v ∧ quarterTrace v.commands = .ok d ∧
      d.turtle.position = (0, 0) := by
  have hscaled (g : Grammar) (w : Word) (hg : g.EdgeRewriting w) (n : ℕ) : ∃ d,
      quarterTrace (Word.commands (g.rules.generation n g.seed)) = .ok d ∧
      Stance.Scaled ((Stance.origin.follow w.commands).place ^ n)
        (Stance.origin.follow g.seed.commands) d.turtle.stance := by
    obtain ⟨d, hd, hstance, -⟩ := (hg.unbranched.generation n).exists_quarterTrace
    exact ⟨d, hd, hstance ▸ hg.scaled_generation n⟩
  refine ⟨fun g w hg n => ?general, fun n => ?koch, fun n => ?island⟩
  case general =>
    obtain ⟨d, hd, hplace, hheading⟩ := hscaled g w hg n
    obtain ⟨seed, hseed, hseed', -⟩ := hg.seed.exists_quarterTrace
    obtain ⟨path, hpath, hpath', -⟩ := hg.path.exists_quarterTrace
    rw [← hseed', ← hpath'] at hplace
    rw [← hseed'] at hheading
    exact ⟨_, seed, path, d, expands_iff.mpr rfl, hseed, hpath, hd, hplace, hheading⟩
  case koch =>
    obtain ⟨d, hd, hplace, -⟩ := hscaled _ _ koch_edgeRewriting n
    refine ⟨_, d, expands_iff.mpr rfl, hd, Point.gaussian_injective ?_⟩
    have hpath : (Stance.origin.follow (Word.commands "f+f-f-f+f")).place = (3 : ℤ) := by
      decide
    have hseed : (Stance.origin.follow (Word.commands Catalog.koch.seed)).place = 1 := by decide
    rw [hpath, hseed, mul_one, ← Int.cast_pow] at hplace
    exact hplace
  case island =>
    obtain ⟨d, hd, hplace, -⟩ := hscaled _ _ kochIsland_edgeRewriting n
    refine ⟨_, d, expands_iff.mpr rfl, hd, Point.gaussian_injective ?_⟩
    have hseed : (Stance.origin.follow (Word.commands Catalog.kochIsland.seed)).place = 0 := by
      decide
    rw [hseed, mul_zero] at hplace
    exact hplace

/-- A path that goes up as far as it goes ahead. -/
def stair : Grammar where
  rules := Catalog.rulesOf [("f", "f+xf-")]
  seed := "f-f"
  angle := 90

theorem expand_scaled_stair :
    stair.EdgeRewriting "f+xf-" ∧
      ∃ v d, stair.Expands 3 v ∧ quarterTrace v.commands = .ok d ∧
        d.turtle.position = (0, 4) ∧ d.turtle.heading ≡ -1 [ZMOD 4] := by
  have hstair : stair.EdgeRewriting "f+xf-" := ⟨rfl, by decide, by decide, by decide⟩
  obtain ⟨v, seed, path, d, hv, hseed, hpath, hd, hplace, hheading⟩ :=
    expand_scaled.1 stair _ hstair 3
  have hseed' : (quarterTrace stair.seed.commands).toOption.map Drawing.turtle =
      some ⟨1, -1, -1⟩ := by decide
  have hpath' : (quarterTrace (Word.commands "f+xf-")).toOption.map Drawing.turtle =
      some ⟨1, 1, 0⟩ := by decide
  rw [hseed] at hseed'
  rw [hpath] at hpath'
  rw [Option.some.inj hseed', Option.some.inj hpath'] at hplace
  rw [Option.some.inj hseed'] at hheading
  exact ⟨hstair, v, d, hv, hd, Point.gaussian_injective (hplace.trans (by decide)), hheading⟩

end Grammar

end Lindenmayer
