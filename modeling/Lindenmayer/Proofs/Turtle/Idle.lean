import Lindenmayer.Proofs.Turtle.Continuation
import Lindenmayer.Proofs.Turtle.Unmatched
import Mathlib.Data.List.Destutter

/-! Symbols that are no commands. The turtle stands still at one, and a point is drawn twice. Without
these symbols the walk comes to the same places, and the drawing is the same when points that are drawn
twice are merged and paths that go nowhere are left out. -/

namespace Lindenmayer

section Merged

variable {α : Type} [BEq α]

/-- The path without the points that equal the one drawn last. -/
def Path.merged (path : Path α) : Path α := path.destutter fun p q => p != q

/-- The paths that go anywhere, with equal points merged. -/
def visible (paths : List (Path α)) : List (Path α) :=
  (paths.map Path.merged).filter (1 < ·.length)

lemma visible_append (paths paths' : List (Path α)) :
    visible (paths ++ paths') = visible paths ++ visible paths' := by
  unfold visible
  rw [List.map_append, List.filter_append]

lemma visible_reverse (paths : List (Path α)) : visible paths.reverse = (visible paths).reverse := by
  unfold visible
  rw [List.map_reverse, List.filter_reverse]

lemma visible_singleton_congr {path path' : Path α} (h : path.merged = path'.merged) :
    visible [path] = visible [path'] := by
  unfold visible
  rw [List.map_singleton, List.map_singleton, h]

lemma visible_point (p : Point α) : visible [[p]] = [] := rfl

lemma destutter'_concat {β : Type} {R : β → β → Prop} [DecidableRel R] (a x : β) (l : List β) :
    (l ++ [x]).destutter' R a =
      if R ((l.destutter' R a).getLast (l.destutter'_ne_nil R)) x then l.destutter' R a ++ [x]
      else l.destutter' R a := by
  induction l generalizing a with
  | nil => exact List.destutter'_singleton R
  | cons b l ih =>
    by_cases hab : R a b
    · simp only [List.cons_append, List.destutter'_cons_pos _ hab, ih b,
        List.getLast_cons (l.destutter'_ne_nil R)]
      split <;> rfl
    · simp only [List.cons_append, List.destutter'_cons_neg _ hab, ih a]

lemma Path.merged_concat (path : Path α) (p : Point α) :
    Path.merged (path ++ [p]) =
      if path.merged.getLast?.all (· != p) then path.merged ++ [p] else path.merged := by
  cases path with
  | nil => rfl
  | cons q path =>
    unfold merged
    rw [List.cons_append, List.destutter_cons', List.destutter_cons', destutter'_concat,
      List.getLast?_eq_some_getLast (path.destutter'_ne_nil _)]
    rfl

lemma Path.merged_concat_twice (path : Path α) {p : Point α} (hp : (p == p) = true) :
    Path.merged (path ++ [p] ++ [p]) = Path.merged (path ++ [p]) := by
  have hlast : (Path.merged (path ++ [p])).getLast?.all (· != p) = false := by
    rw [merged_concat]
    by_cases h : path.merged.getLast?.all (· != p) = true
    · rw [if_pos h, List.getLast?_concat, Option.all_some, bne, hp]
      rfl
    · rw [if_neg h]
      exact eq_false_of_ne_true h
  rw [merged_concat (path ++ [p]), hlast]
  rfl

end Merged

namespace Walk

variable {α : Type}

structure Abreast (s t : Walk α) : Prop where
  pose : t.pose = s.pose
  bounds : t.bounds = s.bounds
  saved : t.saved = s.saved

lemma Abreast.symm {s t : Walk α} (h : Abreast s t) : Abreast t s :=
  ⟨h.pose.symm, h.bounds.symm, h.saved.symm⟩

section Merges

variable [BEq α] {s t : Walk α}

/-- A path that is not begun would be a single point, and is left out as such. -/
lemma visible_paths (s : Walk α) :
    visible s.paths =
      (visible s.closed).reverse ++ visible [s.path.reverse ++ [s.pose.position]] := by
  rw [paths_eq, visible_append, visible_reverse]
  by_cases h : s.path = []
  · rw [if_pos h, h, List.reverse_nil, List.nil_append, visible_point]
    rfl
  · rw [if_neg h]

/-- The paths closed so far look the same, and so does what is open, up to where the turtle stands. -/
structure Merges (s t : Walk α) : Prop where
  closed : visible t.closed = visible s.closed
  opened : Path.merged (t.path.reverse ++ [t.pose.position]) =
    Path.merged (s.path.reverse ++ [s.pose.position])

lemma Merges.visible_paths_eq (h : Merges s t) : visible t.paths = visible s.paths := by
  rw [visible_paths, visible_paths, h.closed, visible_singleton_congr h.opened]

end Merges

variable [Add α] [Sub α] [LT α] [DecidableLT α] [Compass α]
variable {turn : α} {s s₁ t t₁ : Walk α} {c : Command} {cs : List Command}

lemma Step.abreast (h : Step turn s c s₁) (hst : Abreast s t) :
    ∃ t₁, Step turn t c t₁ ∧ Abreast s₁ t₁ := by
  obtain ⟨pose, bounds, saved, path, closed⟩ := t
  obtain ⟨rfl, rfl, rfl⟩ := hst
  cases h with
  | idle => exact ⟨_, .idle, rfl, rfl, rfl⟩
  | left => exact ⟨_, .left, rfl, rfl, rfl⟩
  | right => exact ⟨_, .right, rfl, rfl, rfl⟩
  | save => exact ⟨_, .save, rfl, rfl, rfl⟩
  | restore hs => exact ⟨_, .restore hs, rfl, rfl, rfl⟩
  | forward hd => exact ⟨_, .forward hd, rfl, rfl, rfl⟩

lemma Step.abreast_of_idle (h : Step turn s .idle s₁) (hst : Abreast s t) : Abreast s₁ t := by
  cases h with
  | idle => exact ⟨hst.pose, hst.bounds, hst.saved⟩

lemma Run.abreast (h : Run turn s cs s₁) (hst : Abreast s t) :
    ∃ t₁, Run turn t (cs.filter (· ≠ .idle)) t₁ ∧ Abreast s₁ t₁ := by
  induction h generalizing t with
  | nil => exact ⟨t, .nil t, hst⟩
  | @cons s s₁ s₂ c cs hstep _ ih =>
    by_cases hc : c = .idle
    · subst hc
      obtain ⟨t₂, hrun, hst₂⟩ := ih (hstep.abreast_of_idle hst)
      exact ⟨t₂, by simpa using hrun, hst₂⟩
    · obtain ⟨t₁, hstep', hst₁⟩ := hstep.abreast hst
      obtain ⟨t₂, hrun, hst₂⟩ := ih hst₁
      rw [List.filter_cons_of_pos (by simpa using hc)]
      exact ⟨t₂, .cons hstep' hrun, hst₂⟩

lemma Run.of_filter (h : Run turn t (cs.filter (· ≠ .idle)) t₁) (hst : Abreast s t) :
    ∃ s₁, Run turn s cs s₁ ∧ Abreast s₁ t₁ := by
  -- On the commands, as the run without the idle ones does not tell where they stood.
  induction cs generalizing s t with
  | nil =>
    cases h
    exact ⟨s, .nil s, hst⟩
  | cons c cs ih =>
    by_cases hc : c = .idle
    · subst hc
      rw [List.filter_cons_of_neg (by simp)] at h
      have hstep : Step turn s .idle s.mark := .idle
      obtain ⟨s₁, hrun, hst₁⟩ := ih h (hstep.abreast_of_idle hst)
      exact ⟨s₁, .cons hstep hrun, hst₁⟩
    · rw [List.filter_cons_of_pos (by simpa using hc)] at h
      cases h with
      | cons hstep hrest =>
        obtain ⟨s', hstep', hst'⟩ := hstep.abreast hst.symm
        obtain ⟨s₁, hrun, hst₁⟩ := ih hrest hst'.symm
        exact ⟨s₁, .cons hstep' hrun, hst₁⟩

variable [BEq α]

lemma Step.merges (h : Step turn s c s₁) (h' : Step turn t c t₁) (hst : Abreast s t)
    (hst₁ : Abreast s₁ t₁) (hmerges : Merges s t) : Merges s₁ t₁ := by
  have hposition : t.pose.position = s.pose.position := by rw [hst.pose]
  have hopened := hmerges.opened
  by_cases hc : c = .restore
  · subst hc
    constructor
    · rw [h.closed_of_restore, h'.closed_of_restore, ← List.singleton_append, visible_append,
        visible_singleton_congr hopened, hmerges.closed, ← visible_append, List.singleton_append]
    · rw [h.path_eq_nil_iff.mpr rfl, h'.path_eq_nil_iff.mpr rfl, hst₁.pose]
  · constructor
    · rw [h.closed_eq hc, h'.closed_eq hc]
      exact hmerges.closed
    · rw [h.path_eq hc, h'.path_eq hc, hst₁.pose, List.reverse_cons, List.reverse_cons,
        Path.merged_concat, hopened, ← Path.merged_concat]

lemma Step.merges_of_idle (h : Step turn s .idle s₁) (hmerges : Merges s t)
    (hp : (s.pose.position == s.pose.position) = true) : Merges s₁ t := by
  cases h with
  | idle =>
    refine ⟨hmerges.closed, ?_⟩
    rw [hmerges.opened, mark, List.reverse_cons]
    exact (Path.merged_concat_twice _ hp).symm

lemma Run.merges (h : Run turn s cs s₁) (h' : Run turn t (cs.filter (· ≠ .idle)) t₁)
    (hst : Abreast s t) (hmerges : Merges s t) (htrail : ∀ p ∈ s₁.trail, (p == p) = true) :
    Merges s₁ t₁ := by
  induction h generalizing t with
  | nil =>
    cases h'
    exact hmerges
  | @cons s s₁ s₂ c cs hstep hrun ih =>
    -- At an idle command the point is drawn again, and merges with itself only if it is a number.
    have hp : (s.pose.position == s.pose.position) = true := by
      apply htrail
      apply hrun.trail_subset
      rw [hstep.trail_eq]
      simp
    by_cases hc : c = .idle
    · subst hc
      exact ih h' (hstep.abreast_of_idle hst) (hstep.merges_of_idle hmerges hp) htrail
    · rw [List.filter_cons_of_pos (by simpa using hc)] at h'
      cases h' with
      | cons hstep' hrun' =>
        obtain ⟨t', hstep'', hst₁⟩ := hstep.abreast hst
        obtain rfl := hstep''.unique hstep'
        exact ih hrun' hst₁ (hstep.merges hstep' hst hst₁ hmerges) htrail

end Walk

lemma Point.IsNumber.beq_self {p : Point Float} (hp : p.IsNumber) : (p == p) = true := by
  have hself {x : Float} (hx : x.isNaN = false) : (x == x) = true := by
    rw [Float.beq_self_iff]
    rintro rfl
    cases hx
  change (p.1 == p.1 && p.2 == p.2) = true
  rw [hself hp.1, hself hp.2]
  rfl

/-- The symbols of a word that are commands. -/
def obeyed (ns : List Word) : List Word := ns.filter (· ∈ Command.names)

section Obeyed

variable {ns : List Word} {angle : Float} {i : ℕ} {n : Word}

lemma map_obeyed (ns : List Word) :
    (obeyed ns).map Command.ofName = (ns.map Command.ofName).filter (· ≠ .idle) := by
  rw [obeyed, List.filter_map]
  congr 1
  refine List.filter_congr fun n _ => ?_
  simp [← Command.ofName_ne_idle_iff]

lemma obeyed_take_append_drop (ns : List Word) (i : ℕ) :
    obeyed (ns.take i) ++ obeyed (ns.drop i) = obeyed ns := by
  rw [obeyed, obeyed, obeyed, ← List.filter_append, List.take_append_drop]

lemma take_obeyed (ns : List Word) (i : ℕ) :
    (obeyed ns).take (obeyed (ns.take i)).length = obeyed (ns.take i) := by
  rw [← obeyed_take_append_drop ns i, List.take_left]

lemma getElem?_obeyed (hi : ns[i]? = some n) (hn : n ∈ Command.names) :
    (obeyed ns)[(obeyed (ns.take i)).length]? = some n := by
  obtain ⟨hlt, rfl⟩ := List.getElem?_eq_some_iff.mp hi
  have hrest : obeyed (ns.drop i) = ns[i] :: obeyed (ns.drop (i + 1)) := by
    rw [List.drop_eq_getElem_cons hlt]
    exact List.filter_cons_of_pos (decide_eq_true hn)
  rw [← obeyed_take_append_drop ns i, List.getElem?_append_right le_rfl, Nat.sub_self, hrest]
  rfl

lemma count_obeyed (hn : n ∈ Command.names) (ns : List Word) : (obeyed ns).count n = ns.count n :=
  List.count_filter (decide_eq_true hn)

/-- Symbols that are no commands do not stop the turtle, nor lead it astray. -/
lemma trace_obeyed_eq_ok_iff (P : Pose Float → Bounds Float → Prop) :
    (∃ d, trace ((obeyed ns).map Command.ofName) angle = .ok d ∧ P d.turtle d.bounds) ↔
      ∃ d, trace (ns.map Command.ofName) angle = .ok d ∧ P d.turtle d.bounds := by
  have hstart : Walk.Abreast (Walk.start : Walk Float) .start := ⟨rfl, rfl, rfl⟩
  rw [map_obeyed]
  constructor
  · rintro ⟨d, hd, hP⟩
    obtain ⟨t, hrun, rfl⟩ := draw_eq_ok_iff.mp hd
    obtain ⟨s, hrun', hst⟩ := hrun.of_filter hstart
    refine ⟨s.drawing, draw_eq_ok_iff.mpr ⟨s, hrun', rfl⟩, ?_⟩
    change P s.pose s.bounds
    rwa [← hst.pose, ← hst.bounds]
  · rintro ⟨d, hd, hP⟩
    obtain ⟨s, hrun, rfl⟩ := draw_eq_ok_iff.mp hd
    obtain ⟨t, hrun', hst⟩ := hrun.abreast hstart
    refine ⟨t.drawing, draw_eq_ok_iff.mpr ⟨t, hrun', rfl⟩, ?_⟩
    change P t.pose t.bounds
    rwa [hst.pose, hst.bounds]

lemma unmatched_obeyed_iff (hi : ns[i]? = some [.char ']']) :
    Unmatched (obeyed ns) (obeyed (ns.take i)).length ↔ Unmatched ns i := by
  unfold Unmatched
  rw [getElem?_obeyed hi (by decide), hi, take_obeyed, count_obeyed (by decide),
    count_obeyed (by decide)]

lemma endless_obeyed_iff (hi : ns[i]? = some [.char 'f']) :
    Endless (obeyed ns) angle (obeyed (ns.take i)).length ↔ Endless ns angle i := by
  unfold Endless
  rw [getElem?_obeyed hi (by decide), hi, take_obeyed,
    trace_obeyed_eq_ok_iff fun turtle _ => turtle.heading.isInf = true]

lemma trace_obeyed_exists_ok_iff :
    (∃ d, trace ((obeyed ns).map Command.ofName) angle = .ok d) ↔
      ∃ d, trace (ns.map Command.ofName) angle = .ok d := by
  simpa using trace_obeyed_eq_ok_iff fun _ _ => True

end Obeyed

/-- Symbols that are no commands do not change what becomes of a walk, but for the places that are
counted and the points that are drawn twice. -/
theorem trace_obeyed (ns : List Word) (angle : Float) :
    ((∃ d, trace (ns.map Command.ofName) angle = .ok d) ↔
      ∃ d, trace ((obeyed ns).map Command.ofName) angle = .ok d) ∧
    (∀ i, trace (ns.map Command.ofName) angle = .error (.unmatchedClose i) ↔
      ns[i]? = some [.char ']'] ∧ trace ((obeyed ns).map Command.ofName) angle =
        .error (.unmatchedClose (obeyed (ns.take i)).length)) ∧
    (∀ i, trace (ns.map Command.ofName) angle = .error (.noDirection i) ↔
      ns[i]? = some [.char 'f'] ∧ trace ((obeyed ns).map Command.ofName) angle =
        .error (.noDirection (obeyed (ns.take i)).length)) ∧
    ∀ d d', trace (ns.map Command.ofName) angle = .ok d →
      trace ((obeyed ns).map Command.ofName) angle = .ok d' →
      d'.turtle = d.turtle ∧ d'.bounds = d.bounds ∧
        ((∀ p ∈ d.points, p.IsNumber) → visible d'.paths = visible d.paths) := by
  refine ⟨trace_obeyed_exists_ok_iff.symm, fun i => ?unmatched, fun i => ?endless, ?drawn⟩
  case unmatched =>
    rw [trace_eq_unmatchedClose_iff, trace_eq_unmatchedClose_iff, take_obeyed,
      trace_obeyed_exists_ok_iff]
    constructor
    · rintro ⟨hi, hd⟩
      exact ⟨hi.1, (unmatched_obeyed_iff hi.1).mpr hi, hd⟩
    · rintro ⟨hi, hobeyed, hd⟩
      exact ⟨(unmatched_obeyed_iff hi).mp hobeyed, hd⟩
  case endless =>
    rw [trace_eq_noDirection_iff_endless, trace_eq_noDirection_iff_endless]
    constructor
    · intro hi
      exact ⟨hi.1, (endless_obeyed_iff hi.1).mpr hi⟩
    · rintro ⟨hi, hobeyed⟩
      exact (endless_obeyed_iff hi).mp hobeyed
  case drawn =>
    intro d d' hd hd'
    rw [map_obeyed] at hd'
    obtain ⟨s, hrun, rfl⟩ := draw_eq_ok_iff.mp hd
    obtain ⟨t, hrun', rfl⟩ := draw_eq_ok_iff.mp hd'
    have hstart : Walk.Abreast (Walk.start : Walk Float) .start := ⟨rfl, rfl, rfl⟩
    obtain ⟨t', hrun'', hst⟩ := hrun.abreast hstart
    obtain rfl := hrun''.unique hrun'
    refine ⟨hst.pose, hst.bounds, fun hnumbers => ?_⟩
    have htrail : ∀ p ∈ s.trail, (p == p) = true :=
      fun p hp => (hnumbers p (s.trail_subset_points hp)).beq_self
    exact (hrun.merges hrun' hstart ⟨rfl, rfl⟩ htrail).visible_paths_eq

end Lindenmayer
