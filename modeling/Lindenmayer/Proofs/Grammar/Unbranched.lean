import Lindenmayer.Proofs.Grammar.Morphism
import Lindenmayer.Proofs.Rules.Entries
import Lindenmayer.Proofs.Turtle.Balance
import Lindenmayer.Proofs.Turtle.Quarter

/-! Grammars without brackets. No generation has any, so in quarter turns all of them can be walked to
the end. -/

namespace Lindenmayer

def Word.Unbranched (w : Word) : Prop := ∀ c ∈ w, c ≠ '[' ∧ c ≠ ']'

instance (w : Word) : Decidable w.Unbranched :=
  List.decidableBAll (fun c : Symbol => c ≠ '[' ∧ c ≠ ']') w

lemma Word.commands_append (u v : Word) : Word.commands (u ++ v) = u.commands ++ v.commands :=
  List.map_append

lemma Word.Unbranched.commands_ne_restore {w : Word} (hw : w.Unbranched) :
    ∀ c ∈ w.commands, c ≠ .restore := by
  intro c hc
  obtain ⟨x, hx, rfl⟩ := List.mem_map.mp hc
  exact mt (Command.ofSymbol_eq_restore_iff x).mp (hw x hx).2

lemma Word.Unbranched.exists_quarterTrace {w : Word} (hw : w.Unbranched) :
    ∃ d, quarterTrace w.commands = .ok d ∧ d.turtle.stance = Stance.origin.follow w.commands ∧
      (quarterMoves w.commands).map (Prod.map Point.gaussian Point.gaussian) =
        Stance.origin.legs w.commands := by
  obtain ⟨s, hrun, hend, hmoves⟩ := Walk.start.exists_run hw.commands_ne_restore
  exact ⟨s.drawing, draw_eq_ok_iff.mpr ⟨s, hrun, rfl⟩, hend, hmoves⟩

lemma Word.Unbranched.exists_quarterTrace_stops {w : Word} (hw : w.Unbranched) :
    ∃ d, quarterTrace w.commands = .ok d ∧
      d.turtle.stance = Stance.origin.follow w.commands ∧
      (quarterStops w.commands).map Point.gaussian = Stance.origin.stops w.commands := by
  obtain ⟨d, hd, hstance, hmoves⟩ := hw.exists_quarterTrace
  refine ⟨d, hd, hstance, ?_⟩
  rw [Stance.stops, ← hmoves, List.map_map, quarterStops, List.map_cons, List.map_map]
  rfl

namespace Grammar

structure Unbranched (g : Grammar) : Prop where
  seed : g.seed.Unbranched
  replacement : ∀ e ∈ g.rules.entries, Word.Unbranched e.2

lemma Unbranched.rewrite {g : Grammar} (hg : g.Unbranched) {w : Word} (hw : w.Unbranched) :
    (g.rules.rewrite w).Unbranched := by
  intro x hx
  obtain ⟨c, hc, hx⟩ := List.mem_flatMap.mp hx
  unfold RuleTable.replacement at hx
  cases hget : g.rules.get? [c] with
  | none =>
    rw [hget] at hx
    obtain rfl := List.mem_singleton.mp hx
    exact hw x hc
  | some v =>
    rw [hget] at hx
    exact hg.replacement _ (RuleTable.get?_eq_some_iff.mp hget) x hx

lemma Unbranched.generation {g : Grammar} (hg : g.Unbranched) (n : ℕ) :
    (g.rules.generation n g.seed).Unbranched := by
  induction n with
  | zero => exact hg.seed
  | succ n ih =>
    rw [RuleTable.generation_succ]
    exact hg.rewrite ih

end Grammar

end Lindenmayer
