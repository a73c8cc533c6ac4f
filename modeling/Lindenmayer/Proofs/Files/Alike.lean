import Lindenmayer.Proofs.Files.Writing

/-! Trees that differ in the contents of files at most. A file is written into both in the same way, and
where it cannot be, it is for the same reason. -/

namespace Lindenmayer.Files.Tree

/-- What two trees have in one place, whatever there is in the files. -/
inductive SameKind : Option Entry → Option Entry → Prop
  | none : SameKind none none
  | directory : SameKind (some .directory) (some .directory)
  | file (c c' : List UInt8) : SameKind (some (.file c)) (some (.file c'))

lemma SameKind.refl : ∀ e, SameKind e e
  | .none => .none
  | some .directory => .directory
  | some (.file c) => .file c c

structure Alike (t t' : Tree) : Prop where
  here : t.here = t'.here
  find? : ∀ p, SameKind (t.find? p) (t'.find? p)

lemma Alike.refl (t : Tree) : t.Alike t := ⟨rfl, fun _ => .refl _⟩

/-- Two trees that have changed in the same way: each place is as it was in both, or the same in both. -/
structure InStep (t t' u u' : Tree) : Prop where
  alike : u.Alike u'
  find? : ∀ p, u.find? p = u'.find? p ∨ u.find? p = t.find? p ∧ u'.find? p = t'.find? p

namespace InStep

variable {t t' u u' v v' : Tree}

lemma refl (h : t.Alike t') : InStep t t' t t' := ⟨h, fun _ => .inr ⟨rfl, rfl⟩⟩

lemma trans (h₁ : InStep t t' u u') (h₂ : InStep u u' v v') : InStep t t' v v' where
  alike := h₂.alike
  find? p := by
    rcases h₂.find? p with heq | ⟨hv, hv'⟩
    · exact .inl heq
    · rw [hv, hv']
      exact h₁.find? p

lemma insert (h : t.Alike t') {p : Place} (hp : p ≠ []) (e : Entry) :
    InStep t t' (t.insert p e) (t'.insert p e) where
  alike := by
    refine ⟨h.here, fun q => ?_⟩
    rw [find?_insert t hp, find?_insert t' hp]
    split
    · exact .refl _
    · exact h.find? q
  find? q := by
    rw [find?_insert t hp, find?_insert t' hp]
    by_cases hq : q = p
    · simp [hq]
    · simp [hq]

end InStep

section Alike

variable {t t' : Tree}

lemma Alike.directory_iff (h : t.Alike t') (p : Place) :
    t.find? p = some .directory ↔ t'.find? p = some .directory := by
  have hp := h.find? p
  generalize t.find? p = e, t'.find? p = e' at hp
  cases hp <;> simp

lemma Alike.follow_eq (h : t.Alike t') (above : Place) (ss : List String) :
    t.follow above ss = t'.follow above ss := by
  induction ss generalizing above with
  | nil => rfl
  | cons s ss ih =>
    have habove := h.find? above
    rw [follow, follow]
    generalize t.find? above = e, t'.find? above = e' at habove
    cases habove with
    | none | file => rfl
    | directory => simp only [ih]

lemma Alike.locate_eq (h : t.Alike t') (p : Path) : t.locate p = t'.locate p := by
  simp only [locate, start, h.here, h.follow_eq]

lemma Alike.locateNew_eq (h : t.Alike t') (p : Path) : t.locateNew p = t'.locateNew p := by
  simp only [locateNew, start, h.here, h.follow_eq, h.locate_eq]

/-- Directories have been made in two trees, or could not be made in either for the same reason. -/
inductive MadeInStep (t t' : Tree) :
    Except (Error × Tree) Tree → Except (Error × Tree) Tree → Prop
  | ok {u u'} : InStep t t' u u' → MadeInStep t t' (.ok u) (.ok u')
  | error {e u u'} : InStep t t' u u' → MadeInStep t t' (.error (e, u)) (.error (e, u'))

lemma MadeInStep.after {u u' : Tree} (h : InStep t t' u u') {x x' : Except (Error × Tree) Tree}
    (hx : MadeInStep u u' x x') : MadeInStep t t' x x' := by
  cases hx with
  | ok hx => exact .ok (h.trans hx)
  | error hx => exact .error (h.trans hx)

lemma makeDirectories_inStep (h : t.Alike t') (root : String) (above : Place) (ss : List String) :
    MadeInStep t t' (t.makeDirectories root above ss) (t'.makeDirectories root above ss) := by
  induction ss generalizing t t' above with
  | nil => exact .ok (.refl h)
  | cons s ss ih =>
    have hplace := h.find? (above ++ [s])
    simp only [makeDirectories]
    generalize t.find? (above ++ [s]) = e, t'.find? (above ++ [s]) = e' at hplace
    cases hplace with
    | directory => exact ih h _
    | file =>
      cases ss with
      | nil => exact .error (.refl h)
      | cons => exact .error (.refl h)
    | none =>
      simp only
      split
      · exact .error (.refl h)
      · have hmade := InStep.insert h (p := above ++ [s]) (by simp) .directory
        exact (ih hmade.alike _).after hmade

lemma makeParents_inStep (h : t.Alike t') (p : Path) :
    MadeInStep t t' (t.makeParents p) (t'.makeParents p) := by
  rw [makeParents, makeParents, h.here]
  exact makeDirectories_inStep h _ _ _

lemma openNew_inStep (h : t.Alike t') (name : String) (content : List UInt8) :
    (∃ e, t.openNew name content = .error e ∧ t'.openNew name content = .error e) ∨
      ∃ u u', t.openNew name content = .ok u ∧ t'.openNew name content = .ok u' ∧
        InStep t t' u u' := by
  cases hopen : t.openNew name content with
  | error e =>
    refine .inl ⟨e, rfl, ?_⟩
    rw [openNew, atName_eq_error_iff] at hopen ⊢
    simpa only [writeAt_eq_error_iff, h.locateNew_eq, h.directory_iff] using hopen
  | ok u =>
    obtain ⟨hname, place, hplace, hfree, rfl⟩ := openNew_eq_ok_iff.mp hopen
    have hfree' : t'.find? place ≠ some .directory := mt (h.directory_iff place).mpr hfree
    exact .inr ⟨_, _, rfl,
      openNew_eq_ok_iff.mpr ⟨hname, place, (h.locateNew_eq _).symm.trans hplace, hfree', rfl⟩,
      .insert h (ne_nil_of_find? hfree) _⟩

lemma write_inStep (h : t.Alike t') (name : String) (content : List UInt8) :
    ∃ e u u', t.write name content = (e, u) ∧ t'.write name content = (e, u') ∧
      InStep t t' u u' := by
  have hparents := makeParents_inStep h (.ofString name)
  rw [write, write]
  generalize t.makeParents (.ofString name) = x, t'.makeParents (.ofString name) = x' at hparents
  cases hparents with
  | error hmade => exact ⟨_, _, _, rfl, rfl, hmade⟩
  | ok hmade =>
    rcases openNew_inStep hmade.alike name content with ⟨e, he, he'⟩ | ⟨u, u', hu, hu', hstep⟩
    · simp only [he, he']
      exact ⟨_, _, _, rfl, rfl, hmade⟩
    · simp only [hu, hu']
      exact ⟨_, _, _, rfl, rfl, hmade.trans hstep⟩

end Alike

end Lindenmayer.Files.Tree
