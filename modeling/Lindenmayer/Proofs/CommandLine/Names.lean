import Lindenmayer.CommandLine.Invocation
import Lindenmayer.Proofs.Except

/-! Arguments that are names. A command that is given as many names as it wants, and no options, is that
command of those names. -/

namespace Lindenmayer.CommandLine

/-- An argument that no command takes for an option. -/
structure IsName (s : String) : Prop where
  ne_separator : s ≠ "--"
  word (v : Verb) : classify v.signature s = .ok (.word s)

lemma isName_of_not_dashed {s : String} (h : ∀ c rest, s.toList ≠ '-' :: c :: rest) : IsName s where
  ne_separator := by
    rintro rfl
    exact h '-' [] rfl
  word v := by
    unfold classify
    split
    · next hs => exact absurd hs (h _ _)
    · rfl

lemma tokens_of_names (v : Verb) {ss : List String} (h : ∀ s ∈ ss, IsName s) :
    tokens v.signature ss = .ok (ss.map .word) := by
  induction ss with
  | nil => rfl
  | cons s ss ih =>
    have hs := h s List.mem_cons_self
    rw [tokens, if_neg hs.ne_separator, hs.word v, ih fun s' hs' => h s' (List.mem_cons_of_mem s hs')]
    rfl

lemma scan_names (sig : Signature) {p : Progress} {ss : List String} (h : ∀ s ∈ ss, s ≠ "--")
    (hlen : p.missing.length = ss.length) (afterPositional : Bool) :
    scan sig p afterPositional (ss.map .word) =
      .ok ⟨[], (ss.map some).reverse ++ p.found, p.settings, p.extras⟩ := by
  induction ss generalizing p afterPositional with
  | nil =>
    obtain ⟨missing, found, settings, extras⟩ := p
    obtain rfl := List.eq_nil_of_length_eq_zero hlen
    rfl
  | cons s ss ih =>
    obtain ⟨missing, found, settings, extras⟩ := p
    cases missing with
    | nil => cases hlen
    | cons m missing =>
      have hword : wordOf s = some s := if_neg (h s List.mem_cons_self)
      have hrest := ih (p := ⟨missing, some s :: found, settings, extras⟩)
        (fun s' hs' => h s' (List.mem_cons_of_mem s hs')) (Nat.succ.inj hlen) true
      rw [List.map_cons, scan]
      simp only [Progress.word, hword]
      rw [List.map_cons, List.reverse_cons, List.append_assoc]
      exact hrest

lemma readArguments_names (v : Verb) {ss : List String} (h : ∀ s ∈ ss, IsName s)
    (hlen : v.signature.positionals.length = ss.length) :
    readArguments v.signature ss = .ok ⟨ss.map some, [], []⟩ := by
  unfold readArguments
  rw [tokens_of_names v h]
  simp only
  rw [scan_names v.signature (fun s hs => (h s hs).ne_separator) hlen]
  simp [bind, Except.bind]

lemma ofArguments_names {verb : String} {v : Verb} (hverb : (verb, v) ∈ Verb.all) {ss : List String}
    (h : ∀ s ∈ ss, IsName s) (hlen : v.signature.positionals.length = ss.length) :
    Invocation.ofArguments (verb :: ss) = .ok (v.invocation ⟨ss.map some, [], []⟩) := by
  have hread : readCommand [] verb ss = .ok (v.invocation ⟨ss.map some, [], []⟩) := by
    have hlookup : Verb.all.lookup verb = some v := by
      simp only [Verb.all, List.mem_cons, Prod.mk.injEq, List.not_mem_nil, or_false] at hverb
      rcases hverb with ⟨rfl, rfl⟩ | ⟨rfl, rfl⟩ | ⟨rfl, rfl⟩ | ⟨rfl, rfl⟩ | ⟨rfl, rfl⟩ <;> rfl
    unfold readCommand
    rw [hlookup]
    simp only
    rw [readArguments_names v h hlen]
    rfl
  rw [← hread]
  simp only [Verb.all, List.mem_cons, Prod.mk.injEq, List.not_mem_nil, or_false] at hverb
  rcases hverb with ⟨rfl, rfl⟩ | ⟨rfl, rfl⟩ | ⟨rfl, rfl⟩ | ⟨rfl, rfl⟩ | ⟨rfl, rfl⟩ <;> rfl

lemma ofArguments_render {config output : String} (hconfig : IsName config)
    (houtput : IsName output) :
    Invocation.ofArguments ["render", config, output] =
      .ok (.render config (some output) none (some defaultLimit)) :=
  ofArguments_names (v := .render) (by decide) (by simp [hconfig, houtput]) rfl

lemma ofArguments_expand {config : String} (hconfig : IsName config) :
    Invocation.ofArguments ["expand", config] = .ok (.expand config none) :=
  ofArguments_names (v := .expand) (by decide) (by simp [hconfig]) rfl

lemma ofArguments_validate {config : String} (hconfig : IsName config) :
    Invocation.ofArguments ["validate", config] = .ok (.validate config) :=
  ofArguments_names (v := .validate) (by decide) (by simp [hconfig]) rfl

example : IsName "c.json" := isName_of_not_dashed (by simp)

end Lindenmayer.CommandLine
