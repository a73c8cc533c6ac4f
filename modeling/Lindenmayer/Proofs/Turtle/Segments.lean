import Lindenmayer.Proofs.Turtle.Continuation
import Lindenmayer.Proofs.Turtle.Names
import Mathlib.Data.List.SplitBy

/-! The paths of a drawing, told by where the turtle stands after each front of the word. The word is
cut behind every closing bracket, and each part is drawn as a path of its own. -/

namespace Lindenmayer

namespace Walk

variable {α : Type}

lemma paths_of_open {s : Walk α} (h : s.path ≠ []) :
    s.paths[s.closed.length]? = some (s.path.reverse ++ [s.pose.position]) := by
  rw [paths_eq, if_neg h, ← List.length_reverse, List.getElem?_append_right le_rfl, Nat.sub_self]
  rfl

lemma Continues.paths_of_closed {s s₁ : Walk α} {path : Path α} {closed : List (Path α)}
    (h : Continues s s₁) (hs : s.closed = path :: closed) :
    s₁.paths[closed.length]? = some path := by
  obtain ⟨more, hmore⟩ := h.closed_isPrefix
  rw [← hmore, hs, List.reverse_cons, List.append_assoc, ← List.length_reverse,
    List.getElem?_append_right le_rfl, Nat.sub_self]
  rfl

variable [Add α] [Sub α] [LT α] [DecidableLT α] [Compass α]
variable {turn : α} {s s₁ : Walk α} {c : Command} {cs ds : List Command} {q : ℕ → Walk α}

lemma Run.closed_eq (h : Run turn s cs s₁) (hcs : .restore ∉ cs) : s₁.closed = s.closed := by
  induction h with
  | nil => rfl
  | cons hstep _ ih =>
    rw [List.mem_cons, not_or] at hcs
    rw [ih hcs.2, hstep.closed_eq (Ne.symm hcs.1)]

/-- The walk `q i` is what the first `i` commands lead to. -/
def Stations (turn : α) (s : Walk α) (cs : List Command) (q : ℕ → Walk α) : Prop :=
  ∀ i ≤ cs.length, Run turn s (cs.take i) (q i)

namespace Stations

lemma eq_length (hq : Stations turn s cs q) (h : Run turn s cs s₁) : q cs.length = s₁ := by
  have hall := hq cs.length le_rfl
  rw [List.take_length] at hall
  exact hall.unique h

lemma left (hq : Stations turn s (cs ++ ds) q) : Stations turn s cs q := by
  intro i hi
  have h := hq i (hi.trans (by simp))
  rwa [List.take_append_of_le_length hi] at h

lemma right (hq : Stations turn s (cs ++ ds) q) (h : Run turn s cs s₁) :
    Stations turn s₁ ds fun i => q (cs.length + i) := by
  intro i hi
  have hboth := hq (cs.length + i) (by simpa using hi)
  rw [List.take_length_add_append] at hboth
  obtain ⟨s', h', hrest⟩ := hboth.of_append
  rwa [h'.unique h] at hrest

end Stations

namespace Run

lemma exists_stations (h : Run turn s cs s₁) : ∃ q, Stations turn s cs q := by
  have hfront : ∀ i, ∃ s', Run turn s (cs.take i) s' := by
    intro i
    rw [← cs.take_append_drop i] at h
    obtain ⟨s', h', -⟩ := h.of_append
    exact ⟨s', h'⟩
  exact ⟨_, fun i _ => (hfront i).choose_spec⟩

lemma trail_eq (h : Run turn s cs s₁) (hq : Stations turn s cs q) :
    s₁.trail = s.trail ++ (List.range cs.length).map fun i => (q i).pose.position := by
  induction h generalizing q with
  | nil => simp
  | @cons s s₁ s₂ c cs hstep _ ih =>
    have hfront : Run turn s [c] s₁ := .cons hstep (.nil s₁)
    have hrest : Stations turn s₁ cs fun i => q (1 + i) := Stations.right hq hfront
    have hfirst : q 0 = s := (hq 0 (Nat.zero_le _)).unique (.nil s)
    rw [ih hrest, hstep.trail_eq, List.append_assoc, List.length_cons, List.range_succ_eq_map,
      List.map_cons, List.map_map, hfirst]
    simp [Function.comp_def, Nat.add_comm]

/-- What is drawn of a new path, as long as it is not closed. -/
lemma path_of_notMem (h : Run turn s cs s₁) (hq : Stations turn s cs q) (hopen : s.path = [])
    (hcs : .restore ∉ cs) :
    s₁.closed = s.closed ∧
      s₁.path.reverse = (List.range cs.length).map fun i => (q i).pose.position := by
  have hclosed := h.closed_eq hcs
  have htrail := h.trail_eq hq
  simp only [trail, hclosed, hopen, List.reverse_nil, List.append_nil] at htrail
  exact ⟨hclosed, List.append_cancel_left htrail⟩

lemma paths_of_notMem (h : Run turn s cs s₁) (hq : Stations turn s cs q) (hopen : s.path = [])
    (hcs : .restore ∉ cs) (hdrawn : cs ≠ []) :
    s₁.paths[s.closed.length]? =
      some ((List.range (cs.length + 1)).map fun i => (q i).pose.position) := by
  obtain ⟨hclosed, hpath⟩ := h.path_of_notMem hq hopen hcs
  have hopen₁ : s₁.path ≠ [] := by
    rw [Ne, h.path_eq_nil_iff hdrawn]
    exact fun hlast => hcs (List.mem_of_getLast? hlast)
  have hstop : q cs.length = s₁ := hq.eq_length h
  rw [← hclosed, paths_of_open hopen₁, hpath, List.range_succ, List.map_append, List.map_singleton,
    hstop]

lemma closed_of_restore (h : Run turn s (cs ++ [.restore]) s₁)
    (hq : Stations turn s (cs ++ [.restore]) q) (hopen : s.path = []) (hcs : .restore ∉ cs) :
    s₁.closed =
      ((List.range (cs.length + 1)).map fun i => (q i).pose.position) :: s.closed := by
  obtain ⟨s', h', hlast⟩ := h.of_append
  obtain ⟨hclosed, hpath⟩ := h'.path_of_notMem hq.left hopen hcs
  have hstop : q cs.length = s' := hq.left.eq_length h'
  rw [List.range_succ, List.map_append, List.map_singleton, hstop, ← hpath, ← hclosed]
  cases hlast with
  | cons hstep hnil =>
    cases hnil
    exact hstep.closed_of_restore

end Run

end Walk

/-- The parts of a word that are left when it is cut behind every closing bracket. -/
def segments (ns : List Word) : List (List Word) := ns.splitBy fun n _ => n ≠ [.char ']']

/-- The path of a segment that begins at the place `i`, if `p` tells where the turtle stands. The last
segment may have no bracket at its end, and the last point of its path is then where the turtle stops. -/
def stroke {α : Type} (p : ℕ → Point α) (i : ℕ) (part : List Word) : Path α :=
  (List.range (part.length + if part.getLast? = some [.char ']'] then 0 else 1)).map
    fun k => p (i + k)

lemma stroke_ne_nil {α : Type} (p : ℕ → Point α) (i : ℕ) {part : List Word} (h : part ≠ []) :
    stroke p i part ≠ [] := by
  have hlength := List.length_pos_iff.mpr h
  rw [← List.length_pos_iff, stroke, List.length_map, List.length_range]
  omega

section Segments

variable {ns part : List Word} {front rest : List (List Word)}

lemma notMem_dropLast_of_mem_segments (h : part ∈ segments ns) : [.char ']'] ∉ part.dropLast := by
  have hchain := List.isChain_of_mem_splitBy h
  clear h
  induction part with
  | nil => exact List.not_mem_nil
  | cons n part ih =>
    cases part with
    | nil => exact List.not_mem_nil
    | cons m part =>
      rw [List.isChain_cons_cons] at hchain
      rw [List.dropLast_cons_cons, List.mem_cons, not_or]
      exact ⟨(of_decide_eq_true hchain.1).symm, ih hchain.2⟩

lemma getLast?_of_segments_eq (h : segments ns = front ++ part :: rest) (hrest : rest ≠ []) :
    part.getLast? = some [.char ']'] := by
  obtain ⟨next, rest, rfl⟩ := List.exists_cons_of_ne_nil hrest
  have hchain := List.isChain_getLast_head_splitBy (fun n _ => decide (n ≠ [.char ']'])) ns
  rw [show ns.splitBy _ = front ++ part :: next :: rest from h, List.isChain_append,
    List.isChain_cons_cons] at hchain
  obtain ⟨-, ⟨⟨hpart, -, hlast⟩, -⟩, -⟩ := hchain
  rw [List.getLast?_eq_some_getLast hpart]
  simpa using hlast

lemma count_of_segments_eq (h : segments ns = front ++ part :: rest) :
    part.count [.char ']'] = if part.getLast? = some [.char ']'] then 1 else 0 := by
  have hmem : part ∈ segments ns := by simp [h]
  obtain ⟨init, n, rfl⟩ :=
    (List.eq_nil_or_concat' part).resolve_left (List.ne_nil_of_mem_splitBy hmem)
  have hinit := notMem_dropLast_of_mem_segments hmem
  rw [List.dropLast_concat] at hinit
  rw [List.count_append, List.count_eq_zero.mpr hinit, List.getLast?_concat, List.count_singleton]
  simp

lemma count_flatten_of_segments_eq (h : segments ns = front ++ part :: rest) :
    front.flatten.count [.char ']'] = front.length := by
  have hone : ∀ seg ∈ front, seg.count [.char ']'] = 1 := by
    intro seg hseg
    obtain ⟨before, behind, rfl⟩ := List.append_of_mem hseg
    rw [List.append_assoc, List.cons_append] at h
    rw [count_of_segments_eq h, if_pos (getLast?_of_segments_eq h (by simp))]
  rw [List.count_flatten, List.map_congr_left hone]
  simp

lemma flatten_of_segments_eq (h : segments ns = front ++ part :: rest) :
    ns = front.flatten ++ (part ++ rest.flatten) := by
  rw [← List.flatten_splitBy (fun n _ => decide (n ≠ [.char ']'])) ns,
    show ns.splitBy _ = front ++ part :: rest from h, List.flatten_append, List.flatten_cons]

lemma length_segments (ns : List Word) :
    (segments ns).length =
      ns.count [.char ']'] + if ns ≠ [] ∧ ns.getLast? ≠ some [.char ']'] then 1 else 0 := by
  obtain h | ⟨front, part, h⟩ := List.eq_nil_or_concat' (segments ns)
  · obtain rfl := List.splitBy_eq_nil.mp h
    rfl
  · have hmem : part ∈ segments ns := by simp [h]
    have hpart := List.ne_nil_of_mem_splitBy hmem
    have hcount : ns.count [.char ']'] =
        front.length + if part.getLast? = some [.char ']'] then 1 else 0 := by
      rw [flatten_of_segments_eq h, List.count_append, count_flatten_of_segments_eq h,
        List.flatten_nil, List.append_nil, count_of_segments_eq h]
    have hlast : ns.getLast? = part.getLast? := by
      rw [flatten_of_segments_eq h, List.flatten_nil, List.append_nil,
        List.getLast?_append_of_ne_nil _ hpart]
    have hns : ns ≠ [] := by
      rw [flatten_of_segments_eq h]
      simp [hpart]
    rw [h, List.length_append, List.length_singleton, hcount, hlast]
    by_cases hclose : part.getLast? = some [.char ']'] <;> simp [hclose, hns]

end Segments

namespace Walk

variable {α : Type} [OfNat α 0] [Add α] [Sub α] [LT α] [DecidableLT α] [Compass α]
variable {turn : α} {s : Walk α} {q : ℕ → Walk α} {ns part : List Word} {front rest : List (List Word)}

lemma restore_notMem_iff (ms : List Word) :
    .restore ∉ ms.map Command.ofName ↔ [.char ']'] ∉ ms := by
  rw [← List.count_eq_zero, ← List.count_eq_zero,
    Command.count_map Command.ofName_eq_restore_iff]

lemma getLast?_map_ofName_eq_restore_iff (ms : List Word) :
    (ms.map Command.ofName).getLast? = some .restore ↔ ms.getLast? = some [.char ']'] := by
  rw [List.getLast?_map, Option.map_eq_some_iff]
  simp [Command.ofName_eq_restore_iff]

lemma Run.closed_of_segments (h : segments ns = front ++ part :: rest)
    (hrun : Run turn .start (front.flatten.map Command.ofName) s) :
    s.path = [] ∧ s.closed.length = front.length := by
  constructor
  · obtain rfl | ⟨before, seg, rfl⟩ := List.eq_nil_or_concat' front
    · exact congrArg path (hrun.unique (.nil _))
    · rw [List.append_assoc, List.singleton_append] at h
      have hseg := getLast?_of_segments_eq h (List.cons_ne_nil _ _)
      obtain ⟨init, rfl⟩ := List.getLast?_eq_some_iff.mp hseg
      rw [hrun.path_eq_nil_iff (by simp), getLast?_map_ofName_eq_restore_iff, List.flatten_append,
        List.flatten_singleton, ← List.append_assoc, List.getLast?_concat]
  · rw [hrun.length_closed, Command.count_map Command.ofName_eq_restore_iff,
      count_flatten_of_segments_eq h]
    exact Nat.zero_add _

/-- A segment is drawn as the path at its own place. -/
lemma Run.path_of_segment (hrun : Run turn .start (ns.map Command.ofName) s)
    (hq : Stations turn .start (ns.map Command.ofName) q) (h : segments ns = front ++ part :: rest) :
    s.paths[front.length]? =
      some (stroke (fun i => (q i).pose.position) front.flatten.length part) := by
  have hmem : part ∈ segments ns := by simp [h]
  have hlast := notMem_dropLast_of_mem_segments hmem
  rw [flatten_of_segments_eq h, List.map_append, List.map_append] at hrun hq
  obtain ⟨s₀, h₀, hrun'⟩ := hrun.of_append
  obtain ⟨s₁, h₁, hrun''⟩ := hrun'.of_append
  obtain ⟨hopen, hlength⟩ := h₀.closed_of_segments h
  have hq₁ := (hq.right h₀).left
  rw [List.length_map] at hq₁
  by_cases hclose : part.getLast? = some [.char ']']
  · obtain ⟨init, rfl⟩ := List.getLast?_eq_some_iff.mp hclose
    rw [List.dropLast_concat] at hlast
    rw [List.map_append] at h₁ hq₁
    have hclosed := h₁.closed_of_restore hq₁ hopen ((restore_notMem_iff init).mpr hlast)
    rw [← hlength, hrun''.continues.paths_of_closed hclosed, stroke, if_pos hclose]
    simp
  · -- Nothing follows a segment that is not closed, so the walk stops at its end.
    have hrest : rest = [] := by
      by_contra hrest
      exact hclose (getLast?_of_segments_eq h hrest)
    subst hrest
    cases hrun''
    have hpart : [.char ']'] ∉ part := by
      rw [← List.count_eq_zero, count_of_segments_eq h, if_neg hclose]
    have hdrawn : part.map Command.ofName ≠ [] := by
      simpa using List.ne_nil_of_mem_splitBy hmem
    rw [← hlength, h₁.paths_of_notMem hq₁ hopen ((restore_notMem_iff part).mpr hpart) hdrawn, stroke,
      if_neg hclose, List.length_map]

lemma Run.length_paths_segments (hrun : Run turn .start (ns.map Command.ofName) s) :
    s.paths.length = (segments ns).length := by
  have hlength := hrun.length_paths_drawing
  simp only [Command.count_map Command.ofName_eq_restore_iff, ne_eq, List.map_eq_nil_iff,
    getLast?_map_ofName_eq_restore_iff] at hlength
  rw [length_segments]
  exact hlength

lemma Run.exists_segment_of_mem_paths (hrun : Run turn .start (ns.map Command.ofName) s)
    (hq : Stations turn .start (ns.map Command.ofName) q) {path : Path α} (hpath : path ∈ s.paths) :
    ∃ front part rest, segments ns = front ++ part :: rest ∧
      path = stroke (fun i => (q i).pose.position) front.flatten.length part := by
  obtain ⟨k, hk, rfl⟩ := List.mem_iff_getElem.mp hpath
  have hk' : k < (segments ns).length := hrun.length_paths_segments ▸ hk
  have hsegments : segments ns =
      (segments ns).take k ++ (segments ns)[k] :: (segments ns).drop (k + 1) := by
    rw [← List.drop_eq_getElem_cons hk', List.take_append_drop]
  have hsome := hrun.path_of_segment hq hsegments
  rw [List.length_take_of_le hk'.le, List.getElem?_eq_getElem hk, Option.some_inj] at hsome
  exact ⟨_, _, _, hsegments, hsome⟩

lemma Run.points_of_stations (hrun : Run turn .start (ns.map Command.ofName) s)
    (hq : Stations turn .start (ns.map Command.ofName) q) :
    s.drawing.points = (List.range ns.length).map (fun i => (q i).pose.position) ++
      if ns ≠ [] ∧ ns.getLast? ≠ some [.char ']'] then [(q ns.length).pose.position] else [] := by
  have htrail := hrun.trail_eq hq
  have hstop := hq.eq_length hrun
  rw [List.length_map] at htrail hstop
  have htrail' : s.trail = (List.range ns.length).map fun i => (q i).pose.position := htrail
  rw [points_drawing, htrail', hstop]
  by_cases hns : ns = []
  · subst hns
    cases hrun
    rfl
  · have hopen := hrun.path_eq_nil_iff (by simpa using hns)
    rw [getLast?_map_ofName_eq_restore_iff] at hopen
    by_cases hclose : ns.getLast? = some [.char ']'] <;> simp [hopen, hclose, hns]

end Walk

/-- The paths of a drawing are the places where the turtle stands, cut behind every closing bracket:
one path for each segment, in the order of the word. -/
theorem trace_paths_of_segments {ns : List Word} {angle : Float} {d : Drawing Float}
    (h : trace (ns.map Command.ofName) angle = .ok d) :
    ∃ p : ℕ → Point Float,
      (∀ i ≤ ns.length, ∃ d', trace ((ns.take i).map Command.ofName) angle = .ok d' ∧
        d'.turtle.position = p i) ∧
      d.paths.length = (segments ns).length ∧
      (∀ front part rest, segments ns = front ++ part :: rest →
        d.paths[front.length]? = some (stroke p front.flatten.length part) ∧
        (part.getLast? ≠ some [.char ']'] → rest = [])) ∧
      (∀ path ∈ d.paths, path ≠ []) ∧
      d.points = (List.range ns.length).map p ++
        (if ns ≠ [] ∧ ns.getLast? ≠ some [.char ']'] then [p ns.length] else []) ∧
      d.points.length = ns.length + if ns ≠ [] ∧ ns.getLast? ≠ some [.char ']'] then 1 else 0 := by
  obtain ⟨s, hrun, rfl⟩ := draw_eq_ok_iff.mp h
  obtain ⟨q, hq⟩ := hrun.exists_stations
  have hlength : s.paths.length = (segments ns).length := hrun.length_paths_segments
  have hpoints := hrun.points_of_stations hq
  refine ⟨fun i => (q i).pose.position, ?stands, hlength, ?segment, ?nonempty, hpoints, ?count⟩
  case stands =>
    intro i hi
    refine ⟨(q i).drawing, draw_eq_ok_iff.mpr ⟨q i, ?_, rfl⟩, rfl⟩
    rw [List.map_take]
    exact hq i (by simpa using hi)
  case segment =>
    intro front part rest hsegments
    refine ⟨hrun.path_of_segment hq hsegments, fun hopen => ?_⟩
    by_contra hrest
    exact hopen (getLast?_of_segments_eq hsegments hrest)
  case nonempty =>
    intro path hmem
    obtain ⟨front, part, rest, hsegments, rfl⟩ := hrun.exists_segment_of_mem_paths hq hmem
    exact stroke_ne_nil _ _ (List.ne_nil_of_mem_splitBy (hsegments ▸ List.mem_append_cons_self))
  case count =>
    rw [hpoints, List.length_append, List.length_map, List.length_range]
    split <;> rfl

def nestedBranches : List Word := ["[", "[", "f", "]", "]", "f"]

theorem trace_paths_of_nested_branches :
    ∃ d, ∃ p : ℕ → Point Float, trace (nestedBranches.map Command.ofName) 90 = .ok d ∧
      d.paths.length = 3 ∧ d.paths[1]? = some [p 4] ∧ d.points.length = 7 := by
  have hrun : (trace (nestedBranches.map Command.ofName) 90).toOption.isSome = true := by
    decide +kernel
  cases htrace : trace (nestedBranches.map Command.ofName) 90 with
  | error e =>
    rw [htrace] at hrun
    cases hrun
  | ok d =>
    obtain ⟨p, -, hlength, hpath, -, -, hcount⟩ := trace_paths_of_segments htrace
    have hsegments : segments nestedBranches =
        [[[.char '['], [.char '['], [.char 'f'], [.char ']']]] ++ [[.char ']']] :: [[[.char 'f']]] := by
      decide
    refine ⟨d, p, rfl, by rw [hlength, hsegments]; rfl, ?_, hcount⟩
    exact (hpath _ _ _ hsegments).1

end Lindenmayer
