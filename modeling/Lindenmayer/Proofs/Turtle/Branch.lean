import Lindenmayer.Proofs.Turtle.Balance
import Lindenmayer.Proofs.Turtle.Enclosure

/-! A branch leaves no trace on the turtle. The walk before it is a shadow of the walk behind it: it
has the same pose and the same saved poses, in a box inside the other. A shadow follows its walk over
all commands and records the same positions. -/

namespace Lindenmayer

namespace Walk

variable {α : Type}

structure Shadow [LE α] (number : α → Prop) (s t : Walk α) : Prop where
  pose : t.pose = s.pose
  saved : t.saved = s.saved
  inside : t.bounds.Inside s.bounds
  numeric : s.bounds.Numeric number
  numeric' : t.bounds.Numeric number

variable [Add α] [Sub α] [LT α] [DecidableLT α] [Compass α] [LE α]
variable {number : α → Prop} (order : TotalOn number) (strict : Strict number)
variable {turn : α} {s s₁ t : Walk α} {c : Command} {cs : List Command}

include order strict

lemma Step.shadow (h : Step turn s c s₁) (hst : Shadow number s t) :
    ∃ t₁, Step turn t c t₁ ∧ Shadow number s₁ t₁ := by
  obtain ⟨pose, bounds, saved, path, closed⟩ := t
  obtain ⟨rfl, rfl, hinside, hs, ht⟩ := hst
  cases h with
  | idle => exact ⟨_, .idle, rfl, rfl, hinside, hs, ht⟩
  | left => exact ⟨_, .left, rfl, rfl, hinside, hs, ht⟩
  | right => exact ⟨_, .right, rfl, rfl, hinside, hs, ht⟩
  | save => exact ⟨_, .save, rfl, rfl, hinside, hs, ht⟩
  | restore hp => exact ⟨_, .restore hp, rfl, rfl, hinside, hs, ht⟩
  | forward hd =>
    exact ⟨_, .forward hd, rfl, rfl, order.grow_inside_grow strict ht hs hinside _,
      hs.grow_of_strict strict _, ht.grow_of_strict strict _⟩

lemma Run.shadow (h : Run turn s cs s₁) (hst : Shadow number s t) :
    ∃ t₁ ps, Run turn t cs t₁ ∧ Shadow number s₁ t₁ ∧ ps.length = cs.length ∧
      s₁.trail = s.trail ++ ps ∧ t₁.trail = t.trail ++ ps := by
  induction h generalizing t with
  | @nil s => exact ⟨t, [], .nil t, hst, rfl, by simp, by simp⟩
  | @cons s s₁ s₂ c cs hstep _ ih =>
    obtain ⟨t₁, hstep', hst₁⟩ := hstep.shadow order strict hst
    obtain ⟨t₂, ps, hrun', hst₂, hlen, hs₂, ht₂⟩ := ih hst₁
    refine ⟨t₂, s.pose.position :: ps, .cons hstep' hrun', hst₂, by simp [hlen], ?_, ?_⟩
    · rw [hs₂, hstep.trail_eq, List.append_assoc, List.singleton_append]
    · rw [ht₂, hstep'.trail_eq, hst.pose, List.append_assoc, List.singleton_append]

variable [OfNat α 0]

lemma Run.bounds_inside (h : Run turn s cs s₁) (hs : s.bounds.Numeric number) :
    s₁.bounds.Numeric number ∧ s.bounds.Inside s₁.bounds := by
  induction h with
  | nil => exact ⟨hs, order.inside_refl hs⟩
  | @cons s s₁ s₂ c cs hstep _ ih =>
    have hstep' : s₁.bounds.Numeric number ∧ s.bounds.Inside s₁.bounds := by
      rcases hstep.bounds_eq_or with ⟨hb, -⟩ | ⟨-, hb⟩
      · rw [hb]
        exact ⟨hs, order.inside_refl hs⟩
      · rw [hb]
        exact ⟨hs.grow_of_strict strict _, order.inside_grow_of_strict strict hs _⟩
    obtain ⟨hs₁, hinside₁⟩ := hstep'
    obtain ⟨hs₂, hinside₂⟩ := ih hs₁
    exact ⟨hs₂, order.inside_trans hs hs₁ hs₂ hinside₁ hinside₂⟩

lemma Run.shadow_of_branch {w : Word} (hw : w.Balanced) (hs : s.bounds.Numeric number)
    (h : Run turn s (.save :: (w.commands ++ [.restore])) s₁) : Shadow number s₁ s := by
  obtain ⟨hs₁, hinside⟩ := h.bounds_inside order strict hs
  cases h with
  | cons hsave h =>
    cases hsave with
    | save =>
      obtain ⟨s₂, hbranch, hrestore⟩ := h.of_append
      have hsaved := hbranch.saved_of_balanced hw
      cases hrestore with
      | cons hlast hnil =>
        cases hnil
        cases hlast with
        | restore hp =>
          obtain ⟨rfl, rfl⟩ := List.cons.inj (hp.symm.trans hsaved)
          exact ⟨rfl, rfl, hinside, hs₁, hs⟩

end Walk

/-- A drawing with a branch and the drawing without it end with the same turtle and record the same
positions behind the branch. -/
theorem trace_branch {u w v : Word} {angle : Float} {d : Drawing Float} (hw : w.Balanced)
    (h : trace (Word.commands (u ++ .char '[' :: w ++ .char ']' :: v)) angle = .ok d) :
    ∃ d', trace (Word.commands (u ++ v)) angle = .ok d' ∧ d'.turtle = d.turtle ∧
      (∃ ps, ps.length = v.length ∧
        ps <:+ d.recorded (Word.commands (u ++ .char '[' :: w ++ .char ']' :: v)) ∧
        ps <:+ d'.recorded (Word.commands (u ++ v))) ∧
      d'.bounds.Inside d.bounds := by
  have hcommands : Word.commands (u ++ .char '[' :: w ++ .char ']' :: v) =
      u.commands ++ ((.save :: (w.commands ++ [.restore])) ++ v.commands) := by
    simp [Word.commands, Command.ofSymbol]
  obtain ⟨s, hrun, rfl⟩ := draw_eq_ok_iff.mp h
  have hall := hrun
  rw [hcommands] at hrun
  obtain ⟨s₀, hu, hrest⟩ := hrun.of_append
  obtain ⟨s₁, hbranch, hv⟩ := hrest.of_append
  have hstart : (Walk.start : Walk Float).bounds.Numeric fun x => x.isNaN = false :=
    ⟨rfl, rfl, rfl, rfl⟩
  obtain ⟨hs₀, -⟩ := hu.bounds_inside Binary64.totalOn Binary64.strict hstart
  have hshadow := hbranch.shadow_of_branch Binary64.totalOn Binary64.strict hw hs₀
  obtain ⟨t, ps, hv', hshadow', hlen, hs, ht⟩ :=
    hv.shadow Binary64.totalOn Binary64.strict hshadow
  have hall' : Walk.Run (radians angle) .start (Word.commands (u ++ v)) t := by
    rw [show Word.commands (u ++ v) = u.commands ++ v.commands from List.map_append]
    exact hu.append hv'
  refine ⟨t.drawing, draw_eq_ok_iff.mpr ⟨t, hall', rfl⟩, hshadow'.pose, ⟨ps, ?_, ?_, ?_⟩,
    hshadow'.inside⟩
  · rw [hlen, Word.commands, List.length_map]
  · rw [hall.recorded_drawing, hs]
    exact List.suffix_append _ _
  · rw [hall'.recorded_drawing, ht]
    exact List.suffix_append _ _

def twig : Word := "+[f]-f"

theorem trace_branch_between_brackets :
    twig.Balanced ∧
      ∃ d d', trace (Word.commands (("f[f" : Word) ++ .char '[' :: twig ++
          .char ']' :: ("f]f" : Word))) 90 = .ok d ∧
        trace (Word.commands (("f[f" : Word) ++ ("f]f" : Word))) 90 = .ok d' ∧
        d'.turtle = d.turtle ∧ d'.bounds.Inside d.bounds := by
  have hbalanced : twig.Balanced := by
    refine ⟨fun p hp => ?_, rfl⟩
    have hall : ∀ p ∈ twig.inits, p.count (.char ']') ≤ p.count (.char '[') := by decide
    exact hall p ((List.mem_inits p _).mpr hp)
  have hrun : (trace (Word.commands (("f[f" : Word) ++ .char '[' :: twig ++
      .char ']' :: ("f]f" : Word))) 90).toOption.isSome = true := by
    decide +kernel
  cases htrace : trace (Word.commands (("f[f" : Word) ++ .char '[' :: twig ++
      .char ']' :: ("f]f" : Word))) 90 with
  | error e =>
    rw [htrace] at hrun
    cases hrun
  | ok d =>
    obtain ⟨d', hd', hturtle, -, hinside⟩ := trace_branch hbalanced htrace
    exact ⟨hbalanced, d, d', rfl, hd', hturtle, hinside⟩

end Lindenmayer
