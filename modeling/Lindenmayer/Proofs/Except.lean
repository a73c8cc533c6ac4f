import Mathlib.Logic.Basic

/-! Results that may be errors: where a result put together from others comes from. -/

namespace Except

variable {ε ε' α β : Type} {x : Except ε α}

lemma bind_eq_ok_iff {f : α → Except ε β} {b : β} :
    x >>= f = .ok b ↔ ∃ a, x = .ok a ∧ f a = .ok b := by
  cases x <;> simp [bind, Except.bind]

lemma bind_eq_error_iff {f : α → Except ε β} {e : ε} :
    x >>= f = .error e ↔ x = .error e ∨ ∃ a, x = .ok a ∧ f a = .error e := by
  cases x <;> simp [bind, Except.bind]

lemma of_bind_eq_error {f : α → Except ε β} {e : ε} (hx : x ≠ .error e) (h : x >>= f = .error e) :
    ∃ a, x = .ok a ∧ f a = .error e :=
  (bind_eq_error_iff.mp h).resolve_left hx

lemma map_eq_ok_iff {f : α → β} {b : β} : x.map f = .ok b ↔ ∃ a, x = .ok a ∧ f a = b := by
  cases x <;> simp [Except.map]

lemma map_eq_error_iff {f : α → β} {e : ε} : x.map f = .error e ↔ x = .error e := by
  cases x <;> simp [Except.map]

lemma mapError_eq_ok_iff {f : ε → ε'} {a : α} : x.mapError f = .ok a ↔ x = .ok a := by
  cases x with
  | error d => exact ⟨nofun, nofun⟩
  | ok b => exact ⟨fun h => congrArg ok (ok.inj h), fun h => congrArg ok (ok.inj h)⟩

lemma mapError_eq_error_iff {f : ε → ε'} {e : ε'} :
    x.mapError f = .error e ↔ ∃ d, x = .error d ∧ f d = e := by
  cases x with
  | error d => exact ⟨fun h => ⟨d, rfl, error.inj h⟩, fun ⟨_, hd, he⟩ => error.inj hd ▸ congrArg error he⟩
  | ok b => exact ⟨nofun, nofun⟩

lemma toOption_eq_some_iff {a : α} : x.toOption = some a ↔ x = .ok a := by
  cases x with
  | error d => exact ⟨nofun, nofun⟩
  | ok b => exact ⟨fun h => congrArg ok (Option.some.inj h), fun h => congrArg some (ok.inj h)⟩

end Except
