import Lindenmayer.Grammar.Catalog
import Lindenmayer.Proofs.Grammar.Limit
import Lindenmayer.Proofs.Rules.Entries
import Lindenmayer.Proofs.Turtle.Balance
import Lindenmayer.Proofs.Turtle.Trail
import Mathlib.Data.List.Infix

/-! Grammars with balanced brackets. The depth of a word is what it opens and does not close. Rewriting
by balanced replacements keeps the depth, and no front of the new word is deeper down than a front of
the old one; so all generations are balanced, and their curves restore only what they have saved. -/

namespace Lindenmayer

namespace Word

def depth (w : Word) : ℤ := w.count (.char '[') - w.count (.char ']')

@[simp] lemma depth_nil : depth [] = 0 := rfl

lemma depth_append (u v : Word) : depth (u ++ v) = u.depth + v.depth := by
  simp only [depth, List.count_append]
  omega

lemma depth_cons (c : Symbol) (w : Word) : depth (c :: w) = depth [c] + w.depth :=
  depth_append [c] w

lemma balanced_iff_depth {w : Word} : w.Balanced ↔ (∀ p, p <+: w → 0 ≤ depth p) ∧ w.depth = 0 := by
  constructor
  · intro hw
    refine ⟨fun p hp => ?_, ?_⟩
    · have hle := hw.count_le p hp
      unfold depth
      omega
    · have heq := hw.count_eq
      unfold depth
      omega
  · rintro ⟨hfront, hw⟩
    refine ⟨fun p hp => ?_, ?_⟩
    · have hle := hfront p hp
      unfold depth at hle
      omega
    · unfold depth at hw
      omega

instance (w : Word) : Decidable w.Balanced :=
  decidable_of_iff
    ((∀ p ∈ w.inits, p.count (.char ']') ≤ p.count (.char '[')) ∧
      w.count (.char '[') = w.count (.char ']'))
    ⟨fun h => ⟨fun p hp => h.1 p ((List.mem_inits p w).mpr hp), h.2⟩,
      fun h => ⟨fun p hp => h.count_le p ((List.mem_inits p w).mp hp), h.count_eq⟩⟩

end Word

namespace RuleTable

variable {t : RuleTable}

/-- Each replacement opens and closes what its symbol does, and goes down no deeper on the way. -/
structure KeepsDepth (t : RuleTable) : Prop where
  depth_eq : ∀ c, (t.replacement c).depth = Word.depth [c]
  le_depth : ∀ c q, q <+: t.replacement c → min 0 (Word.depth [c]) ≤ Word.depth q

lemma depth_rewrite (ht : t.KeepsDepth) (w : Word) : (t.rewrite w).depth = w.depth := by
  induction w with
  | nil => rfl
  | cons c w ih =>
    change (t.replacement c ++ t.rewrite w).depth = _
    rw [Word.depth_append, Word.depth_cons, ht.depth_eq, ih]

/-- The depth of a front of the new word, on top of `k` brackets opened before. -/
lemma depth_prefix_rewrite (ht : t.KeepsDepth) {k : ℤ} {w p : Word}
    (hw : ∀ u, u <+: w → 0 ≤ k + Word.depth u) (hp : p <+: t.rewrite w) :
    0 ≤ k + Word.depth p := by
  induction w generalizing k p with
  | nil =>
    obtain rfl := List.prefix_nil.mp hp
    exact hw [] List.nil_prefix
  | cons c w ih =>
    change p <+: t.replacement c ++ t.rewrite w at hp
    rcases List.prefix_or_prefix_of_prefix hp (List.prefix_append _ _) with hp | ⟨q, rfl⟩
    · have hnil := hw [] List.nil_prefix
      have hone := hw [c] ⟨w, rfl⟩
      have hle := ht.le_depth c p hp
      rw [Word.depth_nil] at hnil
      omega
    · rw [Word.depth_append, ht.depth_eq, ← Int.add_assoc]
      refine ih (fun u hu => ?_) ((List.prefix_append_right_inj _).mp hp)
      rw [Int.add_assoc, ← Word.depth_cons]
      exact hw (c :: u) ((List.prefix_cons_inj c).mpr hu)

lemma balanced_rewrite (ht : t.KeepsDepth) {w : Word} (hw : w.Balanced) :
    (t.rewrite w).Balanced := by
  obtain ⟨hfront, hdepth⟩ := Word.balanced_iff_depth.mp hw
  refine Word.balanced_iff_depth.mpr ⟨fun p hp => ?_, (depth_rewrite ht w).trans hdepth⟩
  have hle := depth_prefix_rewrite ht (k := 0) (fun u hu => by simpa using hfront u hu) hp
  simpa using hle

lemma balanced_generation (ht : t.KeepsDepth) (n : ℕ) {w : Word} (hw : w.Balanced) :
    (t.generation n w).Balanced := by
  induction n with
  | zero => exact hw
  | succ n ih =>
    rw [generation_succ]
    exact balanced_rewrite ht ih

end RuleTable

namespace Grammar

structure Balanced (g : Grammar) : Prop where
  seed : g.seed.Balanced
  replacement : ∀ c w, g.rules.get? [c] = some w → Word.Balanced w
  no_open : g.rules.get? ['['] = none
  no_close : g.rules.get? [']'] = none

lemma Balanced.keepsDepth {g : Grammar} (hg : g.Balanced) : g.rules.KeepsDepth := by
  have hcases (c : Symbol) : g.rules.replacement c = [c] ∨
      (Word.depth [c] = 0 ∧ Word.Balanced (g.rules.replacement c)) := by
    unfold RuleTable.replacement
    cases hc : g.rules.get? [c] with
    | none => exact .inl rfl
    | some w =>
      refine .inr ⟨?_, hg.replacement c w hc⟩
      have hopen : c ≠ '[' := by
        rintro rfl
        exact nomatch hg.no_open.symm.trans hc
      have hclose : c ≠ ']' := by
        rintro rfl
        exact nomatch hg.no_close.symm.trans hc
      simp [Word.depth, hopen, hclose]
  constructor
  · intro c
    rcases hcases c with hself | ⟨hc, hw⟩
    · rw [hself]
    · rw [hc, (Word.balanced_iff_depth.mp hw).2]
  · intro c q hq
    rcases hcases c with hself | ⟨hc, hw⟩
    · rw [hself] at hq
      rcases List.prefix_concat_iff.mp (show q <+: [] ++ [c] from hq) with rfl | hq
      · exact min_le_right _ _
      · obtain rfl := List.prefix_nil.mp hq
        exact min_le_left _ _
    · exact (min_le_left _ _).trans ((Word.balanced_iff_depth.mp hw).1 q hq)

lemma generation_of_expand {g : Grammar} {n : ℕ} {limit : Option Int} {w : Word}
    (h : g.expand (some n) limit = .ok w) : g.rules.generation n g.seed = w := by
  cases limit with
  | none => exact Except.ok.inj h
  | some l => exact RuleTable.generation_of_expandWithin h

lemma curve_eq_ok_iff {g : Grammar} {iterations limit : Option Int} {d : Drawing Float} :
    g.curve iterations limit = .ok d ↔
      ∃ w, g.expand iterations limit = .ok w ∧ trace w.commands g.angle = .ok d := by
  unfold curve
  cases g.expand iterations limit with
  | error e => simp
  | ok w => cases h : trace w.commands g.angle <;> simp [h]

lemma curve_eq_walk_error_iff {g : Grammar} {iterations limit : Option Int} {e : WalkError} :
    g.curve iterations limit = .error (.walk e) ↔
      ∃ w, g.expand iterations limit = .ok w ∧ trace w.commands g.angle = .error e := by
  unfold curve
  cases g.expand iterations limit with
  | error e => simp
  | ok w => cases h : trace w.commands g.angle <;> simp [h]

lemma balanced_of_entries {g : Grammar} (hseed : g.seed.Balanced)
    (hentries : ∀ e ∈ g.rules.entries, Word.Balanced e.2 ∧ e.1 ≠ [.char '['] ∧ e.1 ≠ [.char ']']) :
    g.Balanced := by
  have hmem {k w : Word} (h : g.rules.get? k = some w) : (k, w) ∈ g.rules.entries :=
    RuleTable.get?_eq_some_iff.mp h
  refine ⟨hseed, fun c w h => (hentries _ (hmem h)).1, ?_, ?_⟩
  · refine Option.eq_none_iff_forall_ne_some.mpr fun w h => ?_
    exact (hentries _ (hmem h)).2.1 rfl
  · refine Option.eq_none_iff_forall_ne_some.mpr fun w h => ?_
    exact (hentries _ (hmem h)).2.2 rfl

lemma balanced_of_mem_catalog : ∀ p ∈ Catalog.all, p.2.Balanced := by
  have hall : ∀ p ∈ Catalog.all, p.2.seed.Balanced ∧
      ∀ e ∈ p.2.rules.entries, Word.Balanced e.2 ∧ e.1 ≠ [.char '['] ∧ e.1 ≠ [.char ']'] := by
    decide +kernel
  exact fun p hp => balanced_of_entries (hall p hp).1 (hall p hp).2

/-- All generations of a balanced grammar are balanced. No curve of one restores a pose that was not
saved, and the curve has a path for each closing bracket and one more if it does not end in one. The
grammars of the catalog are balanced. -/
theorem expand_balanced_curve_matched :
    (∀ g : Grammar, g.Balanced → ∀ n : ℕ, ∃ w, g.rules.expand g.seed n = .ok w ∧ w.Balanced ∧
      ∀ limit : Option Int,
        (∀ index, g.curve (some n) limit ≠ .error (.walk (.unmatchedClose index))) ∧
        ∀ d, g.curve (some n) limit = .ok d →
          d.paths.length =
            w.count (.char ']') + if w ≠ [] ∧ w.getLast? ≠ some (.char ']') then 1 else 0) ∧
    ∀ p ∈ Catalog.all, p.2.Balanced := by
  refine ⟨fun g hg n => ?_, balanced_of_mem_catalog⟩
  have hbalanced := RuleTable.balanced_generation hg.keepsDepth n hg.seed
  refine ⟨g.rules.generation n g.seed, rfl, hbalanced, fun limit => ⟨fun index h => ?_, fun d h => ?_⟩⟩
  · obtain ⟨w, hw, htrace⟩ := curve_eq_walk_error_iff.mp h
    obtain rfl := generation_of_expand hw
    exact draw_ne_unmatchedClose hbalanced index htrace
  · obtain ⟨w, hw, htrace⟩ := curve_eq_ok_iff.mp h
    obtain rfl := generation_of_expand hw
    obtain ⟨s, hrun, rfl⟩ := draw_eq_ok_iff.mp htrace
    rw [hrun.length_paths_drawing, Word.count_restore]
    simp [Word.commands, Command.ofSymbol_eq_restore_iff]

theorem curve_plant_matched :
    Catalog.plant.Balanced ∧
      ∃ w d, Catalog.plant.rules.expand Catalog.plant.seed (2 : ℕ) = .ok w ∧ w.Balanced ∧
        Catalog.plant.curve (some (2 : ℕ)) (some 89) = .ok d ∧ w.count (.char ']') = 15 ∧
        d.paths.length = 16 := by
  have hplant : Catalog.plant.Balanced :=
    expand_balanced_curve_matched.2 ("plant", Catalog.plant) (by simp [Catalog.all])
  obtain ⟨w, hw, hbalanced, hcurve⟩ := expand_balanced_curve_matched.1 Catalog.plant hplant 2
  have hword : w = Catalog.plant.rules.generation 2 Catalog.plant.seed := (Except.ok.inj hw).symm
  have hrun : (Catalog.plant.curve (some (2 : ℕ)) (some 89)).toOption.isSome = true := by
    decide +kernel
  cases hd : Catalog.plant.curve (some (2 : ℕ)) (some 89) with
  | error e =>
    rw [hd] at hrun
    cases hrun
  | ok d =>
    have hcount : w.count (.char ']') = 15 := by
      rw [hword]
      decide +kernel
    have hlast : w ≠ [] ∧ w.getLast? ≠ some (.char ']') := by
      rw [hword]
      decide +kernel
    have hpaths := (hcurve (some 89)).2 d hd
    rw [hcount, if_pos hlast] at hpaths
    exact ⟨hplant, w, d, hw, hbalanced, rfl, hcount, hpaths⟩

end Grammar

end Lindenmayer
