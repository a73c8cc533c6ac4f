import Lindenmayer.Proofs.Turtle.Run
import Lindenmayer.Turtle.Curve

/-! Runs of the turtle that fail. There is a first command that cannot be obeyed, and the run up to it
succeeds. -/

namespace Lindenmayer

namespace Walk

variable {α : Type} [Compass α]

/-- A command that the walk cannot obey: there is nothing to restore, or nowhere to step. -/
inductive Blocked (s : Walk α) (index : ℕ) : Command → WalkError → Prop
  | restore : s.saved = [] → Blocked s index .restore (.unmatchedClose index)
  | forward : Compass.stride s.pose.heading = none → Blocked s index .forward (.noDirection index)

variable [Add α] [Sub α] [LT α] [DecidableLT α]
variable {turn : α} {s : Walk α} {c : Command} {cs : List Command} {e : WalkError}

lemma step_eq_error_iff (index : ℕ) : s.step turn index c = .error e ↔ s.Blocked index c e := by
  constructor
  · intro h
    cases c with
    | idle | left | right | save => cases h
    | restore =>
      cases hs : s.saved with
      | nil =>
        simp only [step, obey, mark, hs, Except.error.injEq] at h
        exact h ▸ .restore hs
      | cons p ps => simp [step, obey, mark, hs] at h
    | forward =>
      cases hd : Compass.stride s.pose.heading with
      | none =>
        simp only [step, obey, mark, hd, Except.error.injEq] at h
        exact h ▸ .forward hd
      | some d => simp [step, obey, mark, hd] at h
  · intro h
    cases h with
    | restore hs => simp [step, obey, mark, hs]
    | forward hd => simp [step, obey, mark, hd]

lemma run_eq_error_iff (index : ℕ) :
    run turn index s cs = .error e ↔
      ∃ front c rest s', cs = front ++ c :: rest ∧ Run turn s front s' ∧
        s'.Blocked (index + front.length) c e := by
  constructor
  · intro h
    induction cs generalizing index s with
    | nil => cases h
    | cons c cs ih =>
      rw [run] at h
      split at h
      · next s₁ hs =>
        obtain ⟨front, d, rest, s', rfl, hrun, hblocked⟩ := ih (index + 1) h
        refine ⟨c :: front, d, rest, s', rfl, .cons ((step_eq_ok_iff index).mp hs) hrun, ?_⟩
        rw [List.length_cons, Nat.add_comm front.length, ← Nat.add_assoc]
        exact hblocked
      · next e' hs =>
        obtain rfl := Except.error.inj h
        exact ⟨[], c, cs, s, rfl, .nil s, (step_eq_error_iff index).mp hs⟩
  · rintro ⟨front, c, rest, s', rfl, hrun, hblocked⟩
    simp only [run_append, (run_eq_ok_iff index).mpr hrun, run, (step_eq_error_iff _).mpr hblocked]

end Walk

variable {α : Type} [OfNat α 0] [Add α] [Sub α] [LT α] [DecidableLT α] [Compass α]

lemma draw_eq_error_iff {turn : α} {cs : List Command} {e : WalkError} :
    draw turn cs = .error e ↔
      ∃ front c rest s, cs = front ++ c :: rest ∧ Walk.Run turn .start front s ∧
        s.Blocked front.length c e := by
  have hrun : Walk.start.run turn 0 cs = .error e ↔ _ := Walk.run_eq_error_iff 0
  simp only [Nat.zero_add] at hrun
  rw [← hrun, draw]
  cases Walk.start.run turn 0 cs with
  | ok s => simp
  | error e' => simp

lemma cosSin_eq_none_iff {x : Float} :
    Binary64.cosSin x = none ↔ ∃ negative, Binary64.value x = .infinite negative := by
  unfold Binary64.cosSin
  cases Binary64.value x <;> simp

lemma trace_eq_noDirection_iff {cs : List Command} {angle : Float} {index : ℕ} :
    trace cs angle = .error (.noDirection index) ↔
      ∃ front rest s negative, cs = front ++ .forward :: rest ∧ front.length = index ∧
        Walk.Run (radians angle) .start front s ∧
        Binary64.value s.pose.heading = .infinite negative := by
  rw [trace, draw_eq_error_iff]
  constructor
  · rintro ⟨front, c, rest, s, hcs, hrun, hblocked⟩
    cases hblocked with
    | forward hstride =>
      obtain ⟨negative, hvalue⟩ := cosSin_eq_none_iff.mp hstride
      exact ⟨front, rest, s, negative, hcs, rfl, hrun, hvalue⟩
  · rintro ⟨front, rest, s, negative, hcs, rfl, hrun, hvalue⟩
    exact ⟨front, .forward, rest, s, hcs, hrun, .forward (cosSin_eq_none_iff.mpr ⟨negative, hvalue⟩)⟩

end Lindenmayer
