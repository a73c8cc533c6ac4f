import Lindenmayer.Grammar.Basic
import Mathlib.Order.Bounds.Basic

/-! Expansion within a limit: the loop that stops at the first generation that is too long, told by
the lengths of all generations of the expansion without a limit. The seed is none of them. -/

namespace Lindenmayer

namespace RuleTable

variable (t : RuleTable) (limit : Int) (seed : Word)

def overlong (k : ℕ) : Bool := decide (limit < (t.generation k seed).length)

def firstOverlong? (n : ℕ) : Option ℕ := (List.range' 1 n).find? (t.overlong limit seed)

lemma firstOverlong?_eq_none {n : ℕ} :
    t.firstOverlong? limit seed n = none ↔
      ∀ k, 1 ≤ k → k ≤ n → (t.generation k seed).length ≤ limit := by
  simp only [firstOverlong?, List.find?_range'_eq_none, overlong, Bool.not_eq_true',
    decide_eq_false_iff_not, not_lt]
  exact ⟨fun h k hk hn => h k hk (by omega), fun h k hk hn => h k hk (by omega)⟩

lemma firstOverlong?_eq_some {n k : ℕ} :
    t.firstOverlong? limit seed n = some k ↔
      IsLeast {k : ℕ | 1 ≤ k ∧ k ≤ n ∧ limit < (t.generation k seed).length} k := by
  simp only [firstOverlong?, List.find?_range'_eq_some, List.mem_range'_1, overlong,
    decide_eq_true_eq, Bool.not_eq_true', decide_eq_false_iff_not]
  constructor
  · rintro ⟨hlong, ⟨hk, hn⟩, hmin⟩
    refine ⟨⟨hk, by omega, hlong⟩, fun j ⟨hj, _, hj'⟩ => ?_⟩
    by_contra hjk
    exact hmin j hj (by omega) hj'
  · rintro ⟨⟨hk, hn, hlong⟩, hmin⟩
    refine ⟨hlong, ⟨hk, by omega⟩, fun j hj hjk hj' => ?_⟩
    have hle := hmin ⟨hj, by omega, hj'⟩
    omega

lemma expandFrom_generation {α : Type} (see : α → Word → α) (total left made : ℕ) (seen : α) :
    (t.expandFrom see limit total left made (t.generation made seed) seen).1 =
      match (List.range' (made + 1) left).find? (t.overlong limit seed) with
      | none => .ok (t.generation (made + left) seed)
      | some k => .error (.tooLong limit k total) := by
  -- The word in hand is always the last of the generations already made.
  induction left generalizing made seen with
  | zero => rfl
  | succ left ih =>
    rw [expandFrom, ← generation_succ, List.range'_succ]
    by_cases hfit : ((t.generation (made + 1) seed).length : Int) ≤ limit
    · have hnot : ¬ t.overlong limit seed (made + 1) = true := by simpa [overlong] using hfit
      rw [if_pos hfit, List.find?_cons_of_neg hnot, ih (made + 1),
        show made + 1 + left = made + (left + 1) by omega]
    · have hlong : t.overlong limit seed (made + 1) = true := by simpa [overlong] using hfit
      rw [if_neg hfit, List.find?_cons_of_pos hlong]

/-- What is seen on the way has no part in how an expansion ends. -/
lemma expandSeen_fst {α : Type} (see : α → Word → α) (seen : α) (n : Int) :
    (t.expandSeen see seen limit seed n).1 = t.expandWithin limit seed n := by
  cases n with
  | negSucc n => rfl
  | ofNat n =>
    have hrun := t.expandFrom_generation limit seed see n n 0 seen
    have hunseen := t.expandFrom_generation limit seed (fun (_ : Unit) _ => ()) n n 0 ()
    rw [expandWithin, expandSeen, expandSeen]
    split
    · rfl
    · exact hrun.trans hunseen.symm

lemma expandWithin_of_nonpos {limit : Int} (hlimit : limit ≤ 0) (n : ℕ) :
    t.expandWithin limit seed n = .error .limitNotPositive :=
  congrArg Prod.fst (if_pos hlimit)

lemma expandWithin_of_pos {limit : Int} (hlimit : 0 < limit) (n : ℕ) :
    t.expandWithin limit seed n =
      match t.firstOverlong? limit seed n with
      | none => t.expand seed n
      | some k => .error (.tooLong limit k n) := by
  have hrun := t.expandFrom_generation limit seed (fun (_ : Unit) _ => ()) n n 0 ()
  rw [Nat.zero_add, Nat.zero_add] at hrun
  change (if limit ≤ 0 then _ else t.expandFrom _ limit n n 0 seed ()).1 = _
  rw [if_neg (by omega)]
  exact hrun

lemma expandWithin_eq_ok_iff {limit : Int} (hlimit : 0 < limit) {n : ℕ} {w : Word} :
    t.expandWithin limit seed n = .ok w ↔
      t.generation n seed = w ∧ ∀ k, 1 ≤ k → k ≤ n → (t.generation k seed).length ≤ limit := by
  rw [t.expandWithin_of_pos seed hlimit, ← firstOverlong?_eq_none]
  cases t.firstOverlong? limit seed n with
  | none => exact ⟨fun h => ⟨Except.ok.inj h, rfl⟩, fun h => congrArg Except.ok h.1⟩
  | some k => exact ⟨nofun, fun h => nomatch h.2⟩

lemma expandWithin_eq_error_iff {limit : Int} (hlimit : 0 < limit) {n : ℕ} {e : ExpansionError} :
    t.expandWithin limit seed n = .error e ↔
      ∃ k, IsLeast {k : ℕ | 1 ≤ k ∧ k ≤ n ∧ limit < (t.generation k seed).length} k ∧
        e = .tooLong limit k n := by
  simp only [t.expandWithin_of_pos seed hlimit, ← firstOverlong?_eq_some]
  cases t.firstOverlong? limit seed n with
  | none => exact ⟨nofun, fun ⟨k, hk, _⟩ => nomatch hk⟩
  | some k =>
    refine ⟨fun h => ⟨k, rfl, (Except.error.inj h).symm⟩, fun ⟨j, hj, he⟩ => ?_⟩
    rw [Option.some.inj hj, he]

/-- What is the same for all generations of two expansions, their lengths being the same, is the same
for the two expansions within a limit, and they fail alike. -/
lemma expandWithin_map {α : Type} {t u : RuleTable} {v w : Word} (f g : Word → α)
    (hlength : ∀ {v w : Word}, f v = g w → v.length = w.length)
    (h : ∀ k, f (t.generation k v) = g (u.generation k w)) (limit n : Int) :
    (t.expandWithin limit v n).map f = (u.expandWithin limit w n).map g := by
  cases n with
  | negSucc n => rfl
  | ofNat n =>
    change (t.expandWithin limit v n).map f = (u.expandWithin limit w n).map g
    by_cases hlimit : 0 < limit
    · have hoverlong : t.overlong limit v = u.overlong limit w := by
        funext k
        rw [overlong, overlong, hlength (h k)]
      rw [t.expandWithin_of_pos v hlimit, u.expandWithin_of_pos w hlimit, firstOverlong?,
        firstOverlong?, hoverlong]
      split
      · exact congrArg Except.ok (h n)
      · rfl
    · rw [t.expandWithin_of_nonpos v (by omega), u.expandWithin_of_nonpos w (by omega)]
      rfl

lemma generation_of_expandWithin {t : RuleTable} {limit : Int} {seed w : Word} {n : ℕ}
    (h : t.expandWithin limit seed n = .ok w) : t.generation n seed = w := by
  by_cases hlimit : 0 < limit
  · rw [t.expandWithin_of_pos seed hlimit] at h
    split at h
    · exact Except.ok.inj h
    · cases h
  · rw [t.expandWithin_of_nonpos seed (by omega)] at h
    cases h

/-- A limit that holds for all generations holds for the first ones of them. -/
lemma expandWithin_of_le {t : RuleTable} {limit : Int} {seed w : Word} {m n : ℕ} (hmn : m ≤ n)
    (h : t.expandWithin limit seed n = .ok w) :
    t.expandWithin limit seed m = .ok (t.generation m seed) := by
  by_cases hlimit : 0 < limit
  · rw [t.expandWithin_of_pos seed hlimit] at h ⊢
    cases hn : t.firstOverlong? limit seed n with
    | some k =>
      rw [hn] at h
      cases h
    | none =>
      have hfit := (t.firstOverlong?_eq_none limit seed).mp hn
      have hm : t.firstOverlong? limit seed m = none :=
        (t.firstOverlong?_eq_none limit seed).mpr fun k hk hkm => hfit k hk (hkm.trans hmn)
      rw [hm]
      rfl
  · rw [t.expandWithin_of_nonpos seed (by omega)] at h
    cases h

lemma expandWithin_error_of_le {limit : Int} (hlimit : 0 < limit) {m n k : ℕ} (hmn : m ≤ n)
    (h : t.expandWithin limit seed m = .error (.tooLong limit k m)) :
    t.expandWithin limit seed n = .error (.tooLong limit k n) := by
  rw [expandWithin_eq_error_iff t seed hlimit] at h ⊢
  obtain ⟨j, ⟨⟨hj, hjm, hlong⟩, hleast⟩, he⟩ := h
  obtain rfl : k = j := by injection he
  refine ⟨k, ⟨⟨hj, hjm.trans hmn, hlong⟩, fun i ⟨hi, _, hlong'⟩ => ?_⟩, rfl⟩
  by_contra hik
  exact hik (hleast ⟨hi, by omega, hlong'⟩)

lemma expandWithin_of_limit_le {limit limit' : Int} (hlimit : 0 < limit) (hle : limit ≤ limit')
    {n : ℕ} {w : Word} (h : t.expandWithin limit seed n = .ok w) :
    t.expandWithin limit' seed n = .ok w := by
  rw [expandWithin_eq_ok_iff t seed (by omega)] at h ⊢
  exact ⟨h.1, fun k hk hkn => (h.2 k hk hkn).trans hle⟩

end RuleTable

namespace Grammar

def Overlong (g : Grammar) (limit : Int) (k : ℕ) : Prop :=
  ∃ w, g.rules.expand g.seed k = .ok w ∧ limit < w.length

lemma overlong_iff (g : Grammar) (limit : Int) (k : ℕ) :
    g.Overlong limit k ↔ limit < (g.rules.generation k g.seed).length := by
  constructor
  · rintro ⟨w, hw, hlong⟩
    obtain rfl := Except.ok.inj hw
    exact hlong
  · exact fun hlong => ⟨_, rfl, hlong⟩

/-- Expansion within a limit is expansion, unless some generation after the seed is too long; then
the first such generation is reported, whatever comes after it. -/
theorem expandWithin_expand_or_least_overlong (g : Grammar) (limit : Int) :
    (∀ n < 0, g.rules.expandWithin limit g.seed n = .error .negativeIterations) ∧
    (∀ n, 0 ≤ n → limit ≤ 0 → g.rules.expandWithin limit g.seed n = .error .limitNotPositive) ∧
    ∀ n : ℕ, 0 < limit →
      ((∃ w, g.rules.expandWithin limit g.seed n = .ok w) ↔
        ∀ k, 1 ≤ k → k ≤ n → ¬ g.Overlong limit k) ∧
      (∀ w, g.rules.expandWithin limit g.seed n = .ok w → g.rules.expand g.seed n = .ok w) ∧
      ∀ e, g.rules.expandWithin limit g.seed n = .error e →
        ∃ k, IsLeast {k | 1 ≤ k ∧ k ≤ n ∧ g.Overlong limit k} k ∧ e = .tooLong limit k n ∧
          e.message = s!"expansion exceeds {limit} symbols at generation {k} of {n}; " ++
            "lower the iteration count" := by
  refine ⟨?negative, ?notPositive, fun n hlimit => ?loop⟩
  case negative =>
    intro n hn
    obtain ⟨m, rfl⟩ := Int.eq_negSucc_of_lt_zero hn
    rfl
  case notPositive =>
    intro n hn hlimit
    obtain ⟨m, rfl⟩ := Int.eq_ofNat_of_zero_le hn
    exact g.rules.expandWithin_of_nonpos g.seed hlimit m
  case loop =>
    simp only [overlong_iff, not_lt]
    rw [RuleTable.expandWithin_of_pos _ _ hlimit]
    cases hfirst : g.rules.firstOverlong? limit g.seed n with
    | none =>
      have hfit := (g.rules.firstOverlong?_eq_none limit g.seed).mp hfirst
      exact ⟨⟨fun _ => hfit, fun _ => ⟨_, rfl⟩⟩, fun w hw => hw, fun e he => (nomatch he)⟩
    | some k =>
      have hleast := (g.rules.firstOverlong?_eq_some limit g.seed).mp hfirst
      refine ⟨⟨fun ⟨w, hw⟩ => (nomatch hw), fun hfit => ?_⟩, fun w hw => (nomatch hw),
        fun e he => ?_⟩
      · have hle := hfit k hleast.1.1 hleast.1.2.1
        have hlong := hleast.1.2.2
        omega
      · obtain rfl := Except.error.inj he
        exact ⟨k, hleast, rfl, rfl⟩

def fading : Grammar where
  rules := .ofList [(['a'], ['b', 'b', 'b']), (['b'], [])]
  seed := ['a']
  angle := 90

theorem expandWithin_fading :
    (0 : Int) < 2 ∧ fading.rules.expand fading.seed (2 : ℕ) = .ok [] ∧
      fading.rules.expandWithin 2 fading.seed (2 : ℕ) = .error (.tooLong 2 1 2) ∧
      IsLeast {k | 1 ≤ k ∧ k ≤ 2 ∧ fading.Overlong 2 k} 1 := by
  have hpos : (0 : Int) < 2 := by decide
  have hrun : fading.rules.expandWithin 2 fading.seed (2 : ℕ) = .error (.tooLong 2 1 2) := rfl
  obtain ⟨k, hk, he, _⟩ := ((expandWithin_expand_or_least_overlong fading 2).2.2 2 hpos).2.2 _ hrun
  obtain rfl : 1 = k := by injection he
  exact ⟨hpos, rfl, hrun, hk⟩

end Grammar

end Lindenmayer
