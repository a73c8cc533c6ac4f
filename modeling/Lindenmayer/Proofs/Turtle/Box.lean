import Lindenmayer.Proofs.Comparison
import Lindenmayer.Turtle.Drawing

/-! Boxes that grow. A box that grows by a point holds the point and all that it held, and each of
its sides is that of the box before or goes through the point. A box is tight around points if each
of its sides goes through one. -/

namespace Lindenmayer

namespace Bounds

variable {α : Type} {number : α → Prop} {b c : Bounds α} {p : Point α}

structure Numeric (number : α → Prop) (b : Bounds α) : Prop where
  minX : number b.minX
  maxX : number b.maxX
  minY : number b.minY
  maxY : number b.maxY

structure Inside [LE α] (b c : Bounds α) : Prop where
  minX : c.minX ≤ b.minX
  maxX : b.maxX ≤ c.maxX
  minY : c.minY ≤ b.minY
  maxY : b.maxY ≤ c.maxY

structure Tight (b : Bounds α) (ps : List (Point α)) : Prop where
  minX : ∃ p ∈ ps, p.1 = b.minX
  maxX : ∃ p ∈ ps, p.1 = b.maxX
  minY : ∃ p ∈ ps, p.2 = b.minY
  maxY : ∃ p ∈ ps, p.2 = b.maxY

lemma contains_iff [LE α] [DecidableLE α] :
    b.contains p = true ↔ b.minX ≤ p.1 ∧ p.1 ≤ b.maxX ∧ b.minY ≤ p.2 ∧ p.2 ≤ b.maxY := by
  simp [contains, and_assoc]

lemma Tight.mono {ps qs : List (Point α)} (h : b.Tight ps) (hps : ps ⊆ qs) : b.Tight qs where
  minX := h.minX.imp fun _ hp => ⟨hps hp.1, hp.2⟩
  maxX := h.maxX.imp fun _ hp => ⟨hps hp.1, hp.2⟩
  minY := h.minY.imp fun _ hp => ⟨hps hp.1, hp.2⟩
  maxY := h.maxY.imp fun _ hp => ⟨hps hp.1, hp.2⟩

lemma Tight.inside [LE α] [DecidableLE α] {ps : List (Point α)} (h : b.Tight ps)
    (hc : ∀ p ∈ ps, c.contains p = true) : b.Inside c where
  minX := by
    obtain ⟨p, hp, hside⟩ := h.minX
    exact hside ▸ (contains_iff.mp (hc p hp)).1
  maxX := by
    obtain ⟨p, hp, hside⟩ := h.maxX
    exact hside ▸ (contains_iff.mp (hc p hp)).2.1
  minY := by
    obtain ⟨p, hp, hside⟩ := h.minY
    exact hside ▸ (contains_iff.mp (hc p hp)).2.2.1
  maxY := by
    obtain ⟨p, hp, hside⟩ := h.maxY
    exact hside ▸ (contains_iff.mp (hc p hp)).2.2.2

section Grow

variable [LT α] [DecidableLT α]

lemma grow_eq (b : Bounds α) (p : Point α) :
    b.grow p = ⟨lower b.minX p.1, upper b.maxX p.1, lower b.minY p.2, upper b.maxY p.2⟩ := rfl

lemma Numeric.grow (hb : b.Numeric number) (hx : number p.1) (hy : number p.2) :
    (b.grow p).Numeric number where
  minX := number_lower hb.minX hx
  maxX := number_upper hb.maxX hx
  minY := number_lower hb.minY hy
  maxY := number_upper hb.maxY hy

lemma Numeric.grow_of_strict (strict : Strict number) (hb : b.Numeric number) (p : Point α) :
    (b.grow p).Numeric number where
  minX := strict.number_lower hb.minX p.1
  maxX := strict.number_upper hb.maxX p.1
  minY := strict.number_lower hb.minY p.2
  maxY := strict.number_upper hb.maxY p.2

lemma Tight.grow {ps : List (Point α)} (h : b.Tight ps) (p : Point α) :
    (b.grow p).Tight (p :: ps) := by
  have hside {f : Point α → α} {m side : α} (hm : ∃ q ∈ ps, f q = m)
      (hs : side = m ∨ side = f p) : ∃ q ∈ p :: ps, f q = side := by
    rcases hs with rfl | rfl
    · exact hm.imp fun q hq => ⟨List.mem_cons_of_mem p hq.1, hq.2⟩
    · exact ⟨p, List.mem_cons_self, rfl⟩
  rw [grow_eq]
  exact ⟨hside h.minX (lower_eq_or _ _), hside h.maxX (upper_eq_or _ _),
    hside h.minY (lower_eq_or _ _), hside h.maxY (upper_eq_or _ _)⟩

end Grow

end Bounds

namespace TotalOn

variable {α : Type} [LT α] [LE α] {number : α → Prop} {b c d : Bounds α} {p : Point α}
  (order : TotalOn number)

include order

lemma inside_refl (hb : b.Numeric number) : b.Inside b :=
  ⟨order.refl hb.minX, order.refl hb.maxX, order.refl hb.minY, order.refl hb.maxY⟩

lemma inside_trans (hb : b.Numeric number) (hc : c.Numeric number) (hd : d.Numeric number)
    (hbc : b.Inside c) (hcd : c.Inside d) : b.Inside d where
  minX := order.trans hd.minX hc.minX hb.minX hcd.minX hbc.minX
  maxX := order.trans hb.maxX hc.maxX hd.maxX hbc.maxX hcd.maxX
  minY := order.trans hd.minY hc.minY hb.minY hcd.minY hbc.minY
  maxY := order.trans hb.maxY hc.maxY hd.maxY hbc.maxY hcd.maxY

variable [DecidableLE α]

lemma contains_of_inside (hb : b.Numeric number) (hc : c.Numeric number) (hbc : b.Inside c)
    (hx : number p.1) (hy : number p.2) (hp : b.contains p = true) : c.contains p = true := by
  obtain ⟨h₁, h₂, h₃, h₄⟩ := Bounds.contains_iff.mp hp
  exact Bounds.contains_iff.mpr ⟨order.trans hc.minX hb.minX hx hbc.minX h₁,
    order.trans hx hb.maxX hc.maxX h₂ hbc.maxX, order.trans hc.minY hb.minY hy hbc.minY h₃,
    order.trans hy hb.maxY hc.maxY h₄ hbc.maxY⟩

variable [DecidableLT α]

lemma contains_grow (hb : b.Numeric number) (hx : number p.1) (hy : number p.2) :
    (b.grow p).contains p = true :=
  Bounds.contains_iff.mpr ⟨(order.lower_le hb.minX hx).2, (order.le_upper hb.maxX hx).2,
    (order.lower_le hb.minY hy).2, (order.le_upper hb.maxY hy).2⟩

omit [DecidableLE α]

lemma inside_grow (hb : b.Numeric number) (hx : number p.1) (hy : number p.2) :
    b.Inside (b.grow p) where
  minX := (order.lower_le hb.minX hx).1
  maxX := (order.le_upper hb.maxX hx).1
  minY := (order.lower_le hb.minY hy).1
  maxY := (order.le_upper hb.maxY hy).1

lemma inside_grow_of_strict (strict : Strict number) (hb : b.Numeric number) (p : Point α) :
    b.Inside (b.grow p) where
  minX := order.lower_le_of_strict strict hb.minX p.1
  maxX := order.le_upper_of_strict strict hb.maxX p.1
  minY := order.lower_le_of_strict strict hb.minY p.2
  maxY := order.le_upper_of_strict strict hb.maxY p.2

lemma grow_inside_grow (strict : Strict number) (hb : b.Numeric number) (hc : c.Numeric number)
    (hbc : b.Inside c) (p : Point α) : (b.grow p).Inside (c.grow p) where
  minX := order.lower_mono strict hc.minX hb.minX hbc.minX p.1
  maxX := order.upper_mono strict hb.maxX hc.maxX hbc.maxX p.1
  minY := order.lower_mono strict hc.minY hb.minY hbc.minY p.2
  maxY := order.upper_mono strict hb.maxY hc.maxY hbc.maxY p.2

end TotalOn

end Lindenmayer
