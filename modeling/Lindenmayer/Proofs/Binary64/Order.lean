import Lindenmayer.Proofs.Comparison
import Mathlib.Data.Prod.Lex

/-! Doubles that are numbers stand in a line, the two zeros side by side. Their place is a rank: the
class, then the exponent, then the mantissa. -/

namespace Lindenmayer.Binary64

open Float.Model (UnpackedFloat)

def rank : UnpackedFloat → ℤ ×ₗ ℤ ×ₗ ℤ
  | .infinity .negative => toLex (-2, toLex (0, 0))
  | .finite .negative m e _ => toLex (-1, toLex (-e, -m))
  | .zero _ => toLex (0, toLex (0, 0))
  | .notANumber => toLex (0, toLex (0, 0))
  | .finite .positive m e _ => toLex (1, toLex (e, m))
  | .infinity .positive => toLex (2, toLex (0, 0))

lemma then_eq_lt_iff (m n : ℕ) (d e : ℤ) :
    (compare d e).then (compare m n) = .lt ↔ d < e ∨ d = e ∧ m < n := by
  rw [Ordering.then_eq_lt, Int.compare_eq_lt, compare_eq_iff_eq, Nat.compare_eq_lt]

lemma then_eq_gt_iff (m n : ℕ) (d e : ℤ) :
    (compare d e).then (compare m n) = .gt ↔ e < d ∨ e = d ∧ n < m := by
  rw [Ordering.then_eq_gt, Int.compare_eq_gt, compare_eq_iff_eq, Nat.compare_eq_gt, eq_comm]

lemma compare_eq_some {x y : UnpackedFloat} (hx : x.isNaN = false) (hy : y.isNaN = false) :
    ∃ o, x.compare y = some o ∧ (o = .lt ↔ rank x < rank y) ∧ (o = .gt ↔ rank y < rank x) := by
  cases x with
  | notANumber => cases hx
  | infinity s =>
    cases y with
    | notANumber => cases hy
    | infinity t =>
      cases s <;> cases t <;> refine ⟨_, rfl, ?_⟩ <;> dsimp only [rank] <;>
        simp [Prod.Lex.lt_iff, compare]
    | zero t =>
      cases s <;> refine ⟨_, rfl, ?_⟩ <;> dsimp only [rank] <;> simp [Prod.Lex.lt_iff]
    | finite t n e' =>
      cases s <;> cases t <;> refine ⟨_, rfl, ?_⟩ <;> dsimp only [rank] <;> simp [Prod.Lex.lt_iff]
  | zero s =>
    cases y with
    | notANumber => cases hy
    | infinity t =>
      cases t <;> refine ⟨_, rfl, ?_⟩ <;> dsimp only [rank] <;> simp [Prod.Lex.lt_iff]
    | zero t => exact ⟨.eq, rfl, by dsimp only [rank]; simp⟩
    | finite t n e' =>
      cases t <;> refine ⟨_, rfl, ?_⟩ <;> dsimp only [rank] <;> simp [Prod.Lex.lt_iff]
  | finite s m e =>
    cases y with
    | notANumber => cases hy
    | infinity t =>
      cases s <;> cases t <;> refine ⟨_, rfl, ?_⟩ <;> dsimp only [rank] <;> simp [Prod.Lex.lt_iff]
    | zero t =>
      cases s <;> refine ⟨_, rfl, ?_⟩ <;> dsimp only [rank] <;> simp [Prod.Lex.lt_iff]
    | finite t n e' =>
      have hlt := then_eq_lt_iff m n e e'
      have hgt := then_eq_gt_iff m n e e'
      cases s <;> cases t <;> refine ⟨_, rfl, ?_⟩ <;> dsimp only [rank] <;>
        simp [Prod.Lex.lt_iff, hlt, hgt, @eq_comm ℤ e' e]

lemma lt_iff_compare {x y : Float} :
    x < y ↔ x.toModel.unpack.compare y.toModel.unpack = some .lt := by
  change decide (_ = true) = true ↔ _
  rw [decide_eq_true_iff]
  exact beq_iff_eq

lemma lt_iff_rank {x y : Float} (hx : x.isNaN = false) (hy : y.isNaN = false) :
    x < y ↔ rank x.toModel.unpack < rank y.toModel.unpack := by
  obtain ⟨o, ho, hlt, -⟩ := compare_eq_some hx hy
  rw [lt_iff_compare, ho, Option.some_inj, hlt]

lemma le_iff_rank {x y : Float} (hx : x.isNaN = false) (hy : y.isNaN = false) :
    x ≤ y ↔ rank x.toModel.unpack ≤ rank y.toModel.unpack := by
  obtain ⟨o, ho, -, hgt⟩ := compare_eq_some hx hy
  have hmodel : x ≤ y ↔ (x.toModel.unpack.compare y.toModel.unpack).any (·.isLE) = true := by
    change decide (_ = true) = true ↔ _
    rw [decide_eq_true_iff]
    rfl
  rw [hmodel, ho, Option.any_some, ← not_lt, ← hgt]
  cases o <;> simp

lemma totalOn : TotalOn fun x : Float => x.isNaN = false where
  total hx hy := by
    rw [le_iff_rank hx hy, le_iff_rank hy hx]
    exact le_total _ _
  trans hx hy hz hxy hyz := by
    rw [le_iff_rank hx hy] at hxy
    rw [le_iff_rank hy hz] at hyz
    rw [le_iff_rank hx hz]
    exact hxy.trans hyz
  lt_iff hx hy := by
    rw [lt_iff_rank hx hy, le_iff_rank hy hx]
    exact not_le.symm

lemma strict : Strict fun x : Float => x.isNaN = false := by
  intro x y hxy
  have hlt : (x.toModel.unpack.compare y.toModel.unpack == some .lt) = true := of_decide_eq_true hxy
  constructor
  · change x.toModel.unpack.isNaN = false
    cases hx : x.toModel.unpack with
    | notANumber =>
      rw [hx] at hlt
      cases hlt
    | infinity | zero | finite => rfl
  · change y.toModel.unpack.isNaN = false
    cases hy : y.toModel.unpack with
    | notANumber =>
      rw [hy] at hlt
      cases hx : x.toModel.unpack <;> rw [hx] at hlt <;> cases hlt
    | infinity | zero | finite => rfl

end Lindenmayer.Binary64
