import Lindenmayer.Proofs.Turtle.Failure
import Lindenmayer.Turtle.Curve

/-! Words with balanced brackets. A walk over one restores what it has saved itself and nothing that
was saved before. It never finds nothing to restore. -/

namespace Lindenmayer

/-- No front of the word closes more brackets than it opens, and the word closes all. -/
structure Word.Balanced (w : Word) : Prop where
  count_le : ∀ p, p <+: w → p.count (.char ']') ≤ p.count (.char '[')
  count_eq : w.count (.char '[') = w.count (.char ']')

lemma Command.ofSymbol_eq_save_iff (c : Symbol) : ofSymbol c = .save ↔ c = '[' := by
  grind [ofSymbol]

lemma Command.ofSymbol_eq_restore_iff (c : Symbol) : ofSymbol c = .restore ↔ c = ']' := by
  grind [ofSymbol]

lemma Command.count_map {β : Type} [BEq β] [LawfulBEq β] {f : β → Command} {c : Command} {x : β}
    (h : ∀ y, f y = c ↔ y = x) (l : List β) : (l.map f).count c = l.count x := by
  rw [List.count, List.countP_map]
  refine List.countP_congr fun y _ => ?_
  simp [h]

lemma Word.count_commands {c : Command} {x : Symbol} (h : ∀ y, Command.ofSymbol y = c ↔ y = x)
    (w : Word) : w.commands.count c = w.count x :=
  Command.count_map h w

lemma Word.count_save (w : Word) : w.commands.count .save = w.count (.char '[') :=
  count_commands Command.ofSymbol_eq_save_iff w

lemma Word.count_restore (w : Word) : w.commands.count .restore = w.count (.char ']') :=
  count_commands Command.ofSymbol_eq_restore_iff w

lemma Word.Balanced.commands_count_le {w : Word} (hw : w.Balanced) (p : List Command)
    (hp : p <+: w.commands) : p.count .restore ≤ p.count .save := by
  obtain ⟨q, hq, rfl⟩ := List.prefix_map_iff.mp hp
  change (Word.commands q).count .restore ≤ (Word.commands q).count .save
  rw [Word.count_save, Word.count_restore]
  exact hw.count_le q hq

namespace Walk

variable {α : Type} [Add α] [Sub α] [LT α] [DecidableLT α] [Compass α]
variable {turn : α} {s s₁ : Walk α} {c : Command} {cs : List Command} {own old : List (Pose α)}

lemma Step.saved_append (h : Step turn s c s₁) (hs : s.saved = own ++ old)
    (hc : [c].count .restore ≤ own.length + [c].count .save) :
    ∃ own₁, s₁.saved = own₁ ++ old ∧
      own₁.length + [c].count .restore = own.length + [c].count .save := by
  cases h with
  | idle | left | right | forward => exact ⟨own, hs, rfl⟩
  | save => exact ⟨s.pose :: own, congrArg (s.pose :: ·) hs, rfl⟩
  | @restore p ps hp =>
    cases own with
    | nil => simp at hc
    | cons q own =>
      rw [hs, List.cons_append, List.cons.injEq] at hp
      exact ⟨own, hp.2.symm, rfl⟩

lemma Run.saved_append (h : Run turn s cs s₁) (hs : s.saved = own ++ old)
    (hcs : ∀ p, p <+: cs → p.count .restore ≤ own.length + p.count .save) :
    ∃ own₁, s₁.saved = own₁ ++ old ∧
      own₁.length + cs.count .restore = own.length + cs.count .save := by
  induction h generalizing own with
  | nil => exact ⟨own, hs, rfl⟩
  | @cons s s₁ s₂ c cs hstep _ ih =>
    obtain ⟨own₁, hs₁, hcount⟩ := hstep.saved_append hs (hcs [c] ⟨cs, rfl⟩)
    have hsplit (x : Command) (p : List Command) : (c :: p).count x = [c].count x + p.count x := by
      rw [← List.singleton_append, List.count_append]
    have hrest : ∀ p, p <+: cs → p.count .restore ≤ own₁.length + p.count .save := by
      intro p hp
      have hle := hcs (c :: p) (List.prefix_cons_inj c |>.mpr hp)
      rw [hsplit .restore p, hsplit .save p] at hle
      omega
    obtain ⟨own₂, hs₂, hcount₂⟩ := ih hs₁ hrest
    refine ⟨own₂, hs₂, ?_⟩
    rw [hsplit .restore cs, hsplit .save cs]
    omega

lemma Run.saved_of_balanced {w : Word} (hw : w.Balanced) (h : Run turn s w.commands s₁) :
    s₁.saved = s.saved := by
  have hfront : ∀ p, p <+: w.commands →
      p.count .restore ≤ ([] : List (Pose α)).length + p.count .save := by
    intro p hp
    rw [List.length_nil, Nat.zero_add]
    exact hw.commands_count_le p hp
  have hnone : s.saved = [] ++ s.saved := rfl
  obtain ⟨own₁, hs₁, hcount⟩ := h.saved_append hnone hfront
  rw [Word.count_save, Word.count_restore, hw.count_eq] at hcount
  have hnil : own₁ = [] := List.eq_nil_of_length_eq_zero (by simpa using hcount)
  rw [hs₁, hnil, List.nil_append]

end Walk

lemma draw_ne_unmatchedClose {α : Type} [OfNat α 0] [Add α] [Sub α] [LT α] [DecidableLT α]
    [Compass α] {turn : α} {w : Word} (hw : w.Balanced) (index : ℕ) :
    draw turn w.commands ≠ .error (.unmatchedClose index) := by
  intro h
  obtain ⟨front, c, rest, s, hcommands, hrun, hblocked⟩ := draw_eq_error_iff.mp h
  cases hblocked with
  | restore hnone =>
    have hfront := hw.commands_count_le (front ++ [.restore]) ⟨rest, by simp [hcommands]⟩
    have hle : ∀ p, p <+: front → p.count .restore ≤ ([] : List (Pose α)).length + p.count .save := by
      intro p hp
      rw [List.length_nil, Nat.zero_add]
      exact hw.commands_count_le p (hp.trans ⟨.restore :: rest, hcommands.symm⟩)
    have hstart : (Walk.start : Walk α).saved = [] ++ [] := rfl
    obtain ⟨own, hown, hcount⟩ := hrun.saved_append hstart hle
    have hempty : own = [] := by simpa [hnone] using hown.symm
    rw [hempty, List.length_nil, Nat.zero_add, Nat.zero_add] at hcount
    rw [List.count_append, List.count_append, hcount, show [Command.restore].count .restore = 1 from rfl,
      show [Command.restore].count .save = 0 from rfl] at hfront
    omega

end Lindenmayer
