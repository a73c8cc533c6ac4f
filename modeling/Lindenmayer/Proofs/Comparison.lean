import Mathlib.Logic.Basic
import Mathlib.Order.OrderDual

/-! Comparisons that put some of all values in a line: the doubles that are numbers among all doubles.
Of the others they say what they like, but a strict comparison says nothing. What holds of the lower
of two values holds of the upper one in the line read backwards. -/

namespace Lindenmayer

structure TotalOn {α : Type} [LT α] [LE α] (number : α → Prop) : Prop where
  total {a b : α} : number a → number b → a ≤ b ∨ b ≤ a
  trans {a b c : α} : number a → number b → number c → a ≤ b → b ≤ c → a ≤ c
  lt_iff {a b : α} : number a → number b → (a < b ↔ ¬ b ≤ a)

def Strict {α : Type} [LT α] (number : α → Prop) : Prop :=
  ∀ a b : α, a < b → number a ∧ number b

section Sides

variable {α : Type} [LT α] [DecidableLT α] {number : α → Prop} {m x : α}

def lower (m x : α) : α := if x < m then x else m

def upper (m x : α) : α := lower (α := αᵒᵈ) m x

lemma lower_eq_or (m x : α) : lower m x = m ∨ lower m x = x := by
  unfold lower
  split
  · exact .inr rfl
  · exact .inl rfl

lemma upper_eq_or (m x : α) : upper m x = m ∨ upper m x = x := lower_eq_or (α := αᵒᵈ) m x

lemma number_lower (hm : number m) (hx : number x) : number (lower m x) := by
  rcases lower_eq_or m x with h | h
  · exact h.symm ▸ hm
  · exact h.symm ▸ hx

lemma number_upper (hm : number m) (hx : number x) : number (upper m x) :=
  number_lower (α := αᵒᵈ) hm hx

namespace Strict

omit [DecidableLT α] in
lemma dual (strict : Strict number) : Strict (α := αᵒᵈ) number :=
  fun a b hab => (strict b a hab).symm

lemma number_lower (strict : Strict number) (hm : number m) (x : α) : number (lower m x) := by
  unfold lower
  split
  · next hlt => exact (strict x m hlt).1
  · exact hm

lemma number_upper (strict : Strict number) (hm : number m) (x : α) : number (upper m x) :=
  strict.dual.number_lower hm x

end Strict

end Sides

namespace TotalOn

variable {α : Type} [LT α] [LE α] {number : α → Prop} {a b m x : α} (order : TotalOn number)

include order

lemma dual : TotalOn (α := αᵒᵈ) number where
  total ha hb := order.total hb ha
  trans ha hb hc hab hbc := order.trans hc hb ha hbc hab
  lt_iff ha hb := order.lt_iff hb ha

lemma refl (ha : number a) : a ≤ a := (order.total ha ha).elim id id

lemma le_of_lt (ha : number a) (hb : number b) (h : a < b) : a ≤ b :=
  (order.total ha hb).resolve_right ((order.lt_iff ha hb).mp h)

lemma le_of_not_lt (ha : number a) (hb : number b) (h : ¬ a < b) : b ≤ a :=
  not_not.mp fun hba => h ((order.lt_iff ha hb).mpr hba)

variable [DecidableLT α]

lemma lower_le (hm : number m) (hx : number x) : lower m x ≤ m ∧ lower m x ≤ x := by
  unfold lower
  split
  · next hlt => exact ⟨order.le_of_lt hx hm hlt, order.refl hx⟩
  · next hlt => exact ⟨order.refl hm, order.le_of_not_lt hx hm hlt⟩

lemma le_upper (hm : number m) (hx : number x) : m ≤ upper m x ∧ x ≤ upper m x :=
  order.dual.lower_le hm hx

lemma lower_le_of_strict (strict : Strict number) (hm : number m) (x : α) : lower m x ≤ m := by
  unfold lower
  split
  · next hlt => exact order.le_of_lt (strict x m hlt).1 hm hlt
  · exact order.refl hm

lemma le_upper_of_strict (strict : Strict number) (hm : number m) (x : α) : m ≤ upper m x :=
  order.dual.lower_le_of_strict strict.dual hm x

lemma lower_mono (strict : Strict number) (ha : number a) (hb : number b) (hab : a ≤ b) (x : α) :
    lower a x ≤ lower b x := by
  unfold lower
  split
  · next hxa =>
    have hx := (strict x a hxa).1
    split
    · exact order.refl hx
    · exact order.trans hx ha hb (order.le_of_lt hx ha hxa) hab
  · next hxa =>
    split
    · next hxb => exact order.le_of_not_lt (strict x b hxb).1 ha hxa
    · exact hab

lemma upper_mono (strict : Strict number) (ha : number a) (hb : number b) (hab : a ≤ b) (x : α) :
    upper a x ≤ upper b x :=
  order.dual.lower_mono strict.dual hb ha hab x

end TotalOn

end Lindenmayer
