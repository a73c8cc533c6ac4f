import Lindenmayer.Proofs.Binary64.Decoded
import Lindenmayer.Proofs.Turtle.Names

/-! Where a walk fails. There are as many poses saved as brackets open, so the walk over a word fails at
the first bracket that closes none, if it does not come to a step without direction before. -/

namespace Lindenmayer

namespace Walk

variable {α : Type} [Add α] [Sub α] [LT α] [DecidableLT α] [Compass α]
variable {turn : α} {s s₁ : Walk α} {c : Command} {cs : List Command}

lemma Step.length_saved (h : Step turn s c s₁) :
    s₁.saved.length + [c].count .restore = s.saved.length + [c].count .save := by
  cases h with
  | idle | left | right | save | forward => rfl
  | restore hs =>
    rw [hs]
    rfl

lemma Run.length_saved (h : Run turn s cs s₁) :
    s₁.saved.length + cs.count .restore = s.saved.length + cs.count .save := by
  induction h with
  | nil => rfl
  | @cons s s₁ s₂ c cs hstep _ ih =>
    have hstep := hstep.length_saved
    rw [← List.singleton_append, List.count_append, List.count_append]
    omega

lemma Run.saved_eq_nil_iff [OfNat α 0] (h : Run turn .start cs s) :
    s.saved = [] ↔ cs.count .restore = cs.count .save := by
  have hlength : s.saved.length + cs.count .restore = 0 + cs.count .save := h.length_saved
  rw [← List.length_eq_zero_iff]
  omega

end Walk

section Draw

variable {α : Type} [OfNat α 0] [Add α] [Sub α] [LT α] [DecidableLT α] [Compass α]
variable {turn : α} {cs : List Command} {e : WalkError} {i j : ℕ}

/-- The walk fails at a place if it comes there and cannot obey the command. -/
lemma draw_eq_error_iff_getElem? :
    draw turn cs = .error e ↔
      ∃ i c s, cs[i]? = some c ∧ Walk.Run turn .start (cs.take i) s ∧ s.Blocked i c e := by
  rw [draw_eq_error_iff]
  constructor
  · rintro ⟨front, c, rest, s, rfl, hrun, hblocked⟩
    exact ⟨front.length, c, s, by simp, by rwa [List.take_left], hblocked⟩
  · rintro ⟨i, c, s, hc, hrun, hblocked⟩
    obtain ⟨hi, rfl⟩ := List.getElem?_eq_some_iff.mp hc
    refine ⟨cs.take i, cs[i], cs.drop (i + 1), s, ?_, hrun, ?_⟩
    · rw [← List.drop_eq_getElem_cons hi, List.take_append_drop]
    · rwa [List.length_take_of_le hi.le]

lemma draw_eq_unmatchedClose_iff :
    draw turn cs = .error (.unmatchedClose i) ↔
      (cs[i]? = some .restore ∧ (cs.take i).count .restore = (cs.take i).count .save) ∧
        ∃ d, draw turn (cs.take i) = .ok d := by
  rw [draw_eq_error_iff_getElem?]
  constructor
  · rintro ⟨i, c, s, hc, hrun, hblocked⟩
    cases hblocked with
    | restore hnone =>
      exact ⟨⟨hc, hrun.saved_eq_nil_iff.mp hnone⟩, s.drawing, draw_eq_ok_iff.mpr ⟨s, hrun, rfl⟩⟩
  · rintro ⟨⟨hc, hcount⟩, d, hd⟩
    obtain ⟨s, hrun, -⟩ := draw_eq_ok_iff.mp hd
    exact ⟨i, .restore, s, hc, hrun, .restore (hrun.saved_eq_nil_iff.mpr hcount)⟩

lemma draw_eq_noDirection_iff :
    draw turn cs = .error (.noDirection i) ↔
      cs[i]? = some .forward ∧
        ∃ d, draw turn (cs.take i) = .ok d ∧ Compass.stride d.turtle.heading = none := by
  rw [draw_eq_error_iff_getElem?]
  constructor
  · rintro ⟨i, c, s, hc, hrun, hblocked⟩
    cases hblocked with
    | forward hnone => exact ⟨hc, s.drawing, draw_eq_ok_iff.mpr ⟨s, hrun, rfl⟩, hnone⟩
  · rintro ⟨hc, d, hd, hnone⟩
    obtain ⟨s, hrun, rfl⟩ := draw_eq_ok_iff.mp hd
    exact ⟨i, .forward, s, hc, hrun, .forward hnone⟩

lemma exists_draw_take {d : Drawing α} (h : draw turn cs = .ok d) (i : ℕ) :
    ∃ d', draw turn (cs.take i) = .ok d' := by
  obtain ⟨s, hrun, -⟩ := draw_eq_ok_iff.mp h
  rw [← cs.take_append_drop i] at hrun
  obtain ⟨s', hrun', -⟩ := hrun.of_append
  exact ⟨s'.drawing, draw_eq_ok_iff.mpr ⟨s', hrun', rfl⟩⟩

end Draw

lemma stride_eq_none_iff {x : Float} : Compass.stride x = none ↔ x.isInf = true := by
  rw [Binary64.isInf_iff]
  exact cosSin_eq_none_iff

/-- A bracket that closes none: all that are opened before it are closed before it. -/
def Unmatched (ns : List Word) (i : ℕ) : Prop :=
  ns[i]? = some [.char ']'] ∧ (ns.take i).count [.char ']'] = (ns.take i).count [.char '[']

/-- A step that the turtle comes to with an infinite heading. -/
def Endless (ns : List Word) (angle : Float) (i : ℕ) : Prop :=
  ns[i]? = some [.char 'f'] ∧
    ∃ d, trace ((ns.take i).map Command.ofName) angle = .ok d ∧ d.turtle.heading.isInf = true

section Trace

variable {ns : List Word} {angle : Float} {i j : ℕ}

lemma getElem?_map_ofName {c : Command} {m : Word} (h : ∀ n, Command.ofName n = c ↔ n = m) :
    (ns.map Command.ofName)[i]? = some c ↔ ns[i]? = some m := by
  rw [List.getElem?_map, Option.map_eq_some_iff]
  simp [h]

lemma Unmatched.take (h : Unmatched ns i) (hij : i < j) : Unmatched (ns.take j) i := by
  refine ⟨(List.getElem?_take_of_lt hij).trans h.1, ?_⟩
  rw [List.take_take, min_eq_left hij.le]
  exact h.2

lemma Endless.take (h : Endless ns angle i) (hij : i < j) : Endless (ns.take j) angle i := by
  refine ⟨(List.getElem?_take_of_lt hij).trans h.1, ?_⟩
  rw [List.take_take, min_eq_left hij.le]
  exact h.2

lemma trace_eq_unmatchedClose_iff :
    trace (ns.map Command.ofName) angle = .error (.unmatchedClose i) ↔
      Unmatched ns i ∧ ∃ d, trace ((ns.take i).map Command.ofName) angle = .ok d := by
  rw [trace, draw_eq_unmatchedClose_iff, getElem?_map_ofName Command.ofName_eq_restore_iff,
    ← List.map_take, Command.count_map Command.ofName_eq_restore_iff,
    Command.count_map Command.ofName_eq_save_iff]
  rfl

lemma trace_eq_noDirection_iff_endless :
    trace (ns.map Command.ofName) angle = .error (.noDirection i) ↔ Endless ns angle i := by
  rw [trace, draw_eq_noDirection_iff, getElem?_map_ofName Command.ofName_eq_forward_iff,
    ← List.map_take]
  simp only [stride_eq_none_iff]
  rfl

lemma exists_trace_take {d : Drawing Float} (h : trace (ns.map Command.ofName) angle = .ok d)
    (i : ℕ) : ∃ d', trace ((ns.take i).map Command.ofName) angle = .ok d' := by
  rw [List.map_take]
  exact exists_draw_take h i

lemma Unmatched.not_ok (h : Unmatched ns i) :
    ¬ ∃ d, trace (ns.map Command.ofName) angle = .ok d := by
  rintro ⟨d, hd⟩
  have herror := trace_eq_unmatchedClose_iff.mpr ⟨h, exists_trace_take hd i⟩
  rw [hd] at herror
  cases herror

lemma Endless.not_ok (h : Endless ns angle i) :
    ¬ ∃ d, trace (ns.map Command.ofName) angle = .ok d := by
  rintro ⟨d, hd⟩
  have herror := trace_eq_noDirection_iff_endless.mpr h
  rw [hd] at herror
  cases herror

/-- A place that the walk gets past is no unmatched bracket. -/
lemma Unmatched.le (h : Unmatched ns i)
    (hj : ∃ d, trace ((ns.take j).map Command.ofName) angle = .ok d) : j ≤ i := by
  by_contra hij
  exact (h.take (not_le.mp hij)).not_ok hj

lemma Endless.le (h : Endless ns angle i)
    (hj : ∃ d, trace ((ns.take j).map Command.ofName) angle = .ok d) : j ≤ i := by
  by_contra hij
  exact (h.take (not_le.mp hij)).not_ok hj

lemma Unmatched.ne (h : Unmatched ns i) (hj : Endless ns angle j) : i ≠ j := by
  rintro rfl
  have hsame := h.1.symm.trans hj.1
  simp at hsame

/-- The walk comes to an endless step, so no bracket before it is unmatched. -/
lemma Unmatched.lt_of_endless (h : Unmatched ns i) (hj : Endless ns angle j) : j < i := by
  obtain ⟨d, hd, -⟩ := hj.2
  exact lt_of_le_of_ne (h.le ⟨d, hd⟩) (h.ne hj).symm

/-- A walk fails at the first bracket that closes none, unless it comes to a step with an infinite
heading before, and this is all that it fails at. -/
theorem trace_fails_at_first_unmatched (ns : List Word) (angle : Float) :
    (∀ i, trace (ns.map Command.ofName) angle = .error (.unmatchedClose i) ↔
      IsLeast {i | Unmatched ns i} i ∧ ∀ j < i, ¬ Endless ns angle j) ∧
    ((∃ j, trace (ns.map Command.ofName) angle = .error (.noDirection j)) ↔
      ∃ j, Endless ns angle j ∧ ∀ i, Unmatched ns i → j < i) ∧
    ((∃ d, trace (ns.map Command.ofName) angle = .ok d) ↔
      (∀ i, ¬ Unmatched ns i) ∧ ∀ j, ¬ Endless ns angle j) := by
  refine ⟨fun i => ⟨?unmatched, ?first⟩, ⟨?endless, ?before⟩, ?through, ?neither⟩
  case unmatched =>
    intro h
    obtain ⟨hi, hd⟩ := trace_eq_unmatchedClose_iff.mp h
    exact ⟨⟨hi, fun j hj => hj.le hd⟩, fun j hji hj => absurd (hj.le hd) (not_le.mpr hji)⟩
  case first =>
    rintro ⟨⟨hi, hleast⟩, hendless⟩
    cases h : trace (ns.map Command.ofName) angle with
    | ok d => exact absurd ⟨d, h⟩ hi.not_ok
    | error e =>
      cases e with
      | unmatchedClose k =>
        obtain ⟨hk, hd⟩ := trace_eq_unmatchedClose_iff.mp h
        rw [le_antisymm (hleast hk) (hi.le hd)]
      | noDirection k =>
        have hk := trace_eq_noDirection_iff_endless.mp h
        exact absurd hk (hendless k (hi.lt_of_endless hk))
  case endless =>
    rintro ⟨j, h⟩
    have hj := trace_eq_noDirection_iff_endless.mp h
    exact ⟨j, hj, fun i hi => hi.lt_of_endless hj⟩
  case before =>
    rintro ⟨j, hj, -⟩
    exact ⟨j, trace_eq_noDirection_iff_endless.mpr hj⟩
  case through =>
    intro h
    exact ⟨fun i hi => hi.not_ok h, fun j hj => hj.not_ok h⟩
  case neither =>
    rintro ⟨hunmatched, hendless⟩
    cases h : trace (ns.map Command.ofName) angle with
    | ok d => exact ⟨d, rfl⟩
    | error e =>
      cases e with
      | unmatchedClose k => exact absurd (trace_eq_unmatchedClose_iff.mp h).1 (hunmatched k)
      | noDirection k => exact absurd (trace_eq_noDirection_iff_endless.mp h) (hendless k)

end Trace

end Lindenmayer
