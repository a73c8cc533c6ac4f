import Lindenmayer.Turtle.Walk
import Mathlib.Data.List.Basic

/-! Runs of the turtle as a relation. A step or a run that succeeds does not know at which index it
began. -/

namespace Lindenmayer

namespace Walk

variable {α : Type} [Add α] [Sub α] [LT α] [DecidableLT α] [Compass α]

inductive Step (turn : α) (s : Walk α) : Command → Walk α → Prop
  | idle : Step turn s .idle s.mark
  | left : Step turn s .left (s.mark.face (s.pose.heading + turn))
  | right : Step turn s .right (s.mark.face (s.pose.heading - turn))
  | save : Step turn s .save { s.mark with saved := s.pose :: s.saved }
  | restore {p ps} : s.saved = p :: ps →
      Step turn s .restore ⟨p, s.bounds, ps, [], s.mark.path.reverse :: s.closed⟩
  | forward {d} : Compass.stride s.pose.heading = some d →
      Step turn s .forward (s.mark.moveTo (s.pose.x + d.1, s.pose.y + d.2))

inductive Run (turn : α) : Walk α → List Command → Walk α → Prop
  | nil (s) : Run turn s [] s
  | cons {s s₁ s₂ c cs} : Step turn s c s₁ → Run turn s₁ cs s₂ → Run turn s (c :: cs) s₂

variable {turn : α} {s s₁ s₂ : Walk α} {c : Command} {cs ds : List Command}

lemma step_eq_ok_iff (index : ℕ) : s.step turn index c = .ok s₁ ↔ Step turn s c s₁ := by
  constructor
  · intro h
    cases c with
    | idle => exact Except.ok.inj h ▸ .idle
    | left => exact Except.ok.inj h ▸ .left
    | right => exact Except.ok.inj h ▸ .right
    | save => exact Except.ok.inj h ▸ .save
    | restore =>
      cases hs : s.saved with
      | nil => simp [step, obey, mark, hs] at h
      | cons p ps =>
        simp only [step, obey, mark, hs, Except.ok.injEq] at h
        exact h ▸ .restore hs
    | forward =>
      cases hd : Compass.stride s.pose.heading with
      | none => simp [step, obey, mark, hd] at h
      | some d =>
        simp only [step, obey, mark, hd, Except.ok.injEq] at h
        exact h ▸ .forward hd
  · intro h
    cases h with
    | idle | left | right | save => rfl
    | restore hs => simp [step, obey, mark, hs]
    | forward hd => simp [step, obey, mark, hd]

lemma Step.unique (h₁ : Step turn s c s₁) (h₂ : Step turn s c s₂) : s₁ = s₂ :=
  Except.ok.inj (((step_eq_ok_iff 0).mpr h₁).symm.trans ((step_eq_ok_iff 0).mpr h₂))

lemma Step.saved_subset (h : Step turn s c s₁) : s₁.saved ⊆ s.pose :: s.saved := by
  cases h with
  | idle | left | right | forward => exact List.subset_cons_self _ _
  | save => exact List.Subset.refl _
  | restore hs =>
    rw [hs]
    exact fun q hq => List.mem_cons_of_mem _ (List.mem_cons_of_mem _ hq)

lemma run_eq_ok_iff (index : ℕ) : run turn index s cs = .ok s₁ ↔ Run turn s cs s₁ := by
  induction cs generalizing index s with
  | nil =>
    constructor
    · intro h
      exact Except.ok.inj h ▸ .nil s
    · intro h
      cases h
      rfl
  | cons c cs ih =>
    constructor
    · intro h
      rw [run] at h
      split at h
      · next s' hs => exact .cons ((step_eq_ok_iff index).mp hs) ((ih (index + 1)).mp h)
      · cases h
    · intro h
      cases h with
      | cons hs hr =>
        rw [run, (step_eq_ok_iff index).mpr hs]
        exact (ih (index + 1)).mpr hr

namespace Run

lemma unique (h₁ : Run turn s cs s₁) (h₂ : Run turn s cs s₂) : s₁ = s₂ :=
  Except.ok.inj (((run_eq_ok_iff 0).mpr h₁).symm.trans ((run_eq_ok_iff 0).mpr h₂))

lemma append (h₁ : Run turn s cs s₁) (h₂ : Run turn s₁ ds s₂) : Run turn s (cs ++ ds) s₂ := by
  induction h₁ with
  | nil => exact h₂
  | cons hs _ ih => exact .cons hs (ih h₂)

lemma of_append (h : Run turn s (cs ++ ds) s₂) : ∃ s₁, Run turn s cs s₁ ∧ Run turn s₁ ds s₂ := by
  induction cs generalizing s with
  | nil => exact ⟨s, .nil s, h⟩
  | cons c cs ih =>
    cases h with
    | cons hs hr =>
      obtain ⟨s₁, h₁, h₂⟩ := ih hr
      exact ⟨s₁, .cons hs h₁, h₂⟩

end Run

end Walk

variable {α : Type} [OfNat α 0] [Add α] [Sub α] [LT α] [DecidableLT α] [Compass α]

lemma draw_eq_ok_iff {turn : α} {cs : List Command} {d : Drawing α} :
    draw turn cs = .ok d ↔ ∃ s, Walk.Run turn .start cs s ∧ s.drawing = d := by
  unfold draw
  cases h : Walk.start.run turn 0 cs with
  | error e =>
    constructor
    · intro hd
      cases hd
    · rintro ⟨s, hs, _⟩
      rw [(Walk.run_eq_ok_iff 0).mpr hs] at h
      cases h
  | ok s =>
    have hs := (Walk.run_eq_ok_iff 0).mp h
    constructor
    · intro hd
      exact ⟨s, hs, Except.ok.inj hd⟩
    · rintro ⟨s', hs', rfl⟩
      rw [hs.unique hs']

end Lindenmayer
