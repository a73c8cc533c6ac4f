import Lindenmayer.Proofs.Files.Writing
import Lindenmayer.Proofs.Text.Lines

/-! Names without a NUL. Where the directories have such names as well, no fault of the files is one
that is not reported. -/

namespace Lindenmayer.Files

def NulFree (s : String) : Prop := Char.ofNat 0 ∉ s.toList

lemma nameFault?_ne_nul {name : String} (h : NulFree name) : nameFault? name ≠ some .nul := by
  have hfree : name.toList.contains (Char.ofNat 0) = false := by simpa [NulFree] using h
  unfold nameFault?
  rw [hfree]
  split
  · contradiction
  · split <;> simp

namespace Path

lemma subset_of_mem_split {s p : List Char} (h : p ∈ split s) : p ⊆ s := by
  induction s generalizing p with
  | nil =>
    obtain rfl := List.mem_singleton.mp h
    exact List.Subset.refl _
  | cons c s ih =>
    rw [split] at h
    split at h
    · rcases List.mem_cons.mp h with rfl | h
      · exact List.nil_subset _
      · exact List.subset_cons_of_subset c (ih h)
    · split at h
      · obtain rfl := List.mem_singleton.mp h
        exact List.cons_subset_cons c (List.nil_subset s)
      · next q qs hq =>
        rcases List.mem_cons.mp h with rfl | h
        · exact List.cons_subset_cons c (ih (hq ▸ List.mem_cons_self))
        · exact List.subset_cons_of_subset c (ih (hq ▸ List.mem_cons_of_mem q h))

lemma nulFree_segments {name : String} (h : NulFree name) :
    ∀ s ∈ (ofString name).segments, NulFree s := by
  intro s hs
  obtain ⟨p, hp, rfl⟩ := List.mem_map.mp hs
  have hsplit := List.mem_of_mem_filter hp
  intro hnul
  rw [String.toList_ofList] at hnul
  exact h (subset_of_mem_split hsplit hnul)

lemma nulFree_fullRoot (name : String) : NulFree (ofString name).fullRoot := by
  have hroot : NulFree (rootOf name.toList) := by
    unfold rootOf NulFree
    split <;> decide
  unfold fullRoot
  split
  · exact hroot
  · unfold NulFree
    decide

lemma mem_of_mem_normalize {x : String} {done ss : List String} (h : x ∈ normalize done ss) :
    x ∈ done ∨ x ∈ ss := by
  induction ss generalizing done with
  | nil => exact .inl (List.mem_reverse.mp h)
  | cons s ss ih =>
    rw [normalize] at h
    split at h
    · exact (ih h).imp_right (List.mem_cons_of_mem s)
    · split at h
      · exact (ih h).imp List.mem_of_mem_tail (List.mem_cons_of_mem s)
      · rcases ih h with h | h
        · rcases List.mem_cons.mp h with rfl | h
          · exact .inr List.mem_cons_self
          · exact .inl h
        · exact .inr (List.mem_cons_of_mem s h)

lemma nulFree_full {name : String} {here : List String} (h : NulFree name)
    (hhere : ∀ s ∈ here, NulFree s) : ∀ s ∈ (ofString name).full here, NulFree s := by
  intro s hs
  have hmem := (mem_of_mem_normalize hs).resolve_left List.not_mem_nil
  split at hmem
  · exact nulFree_segments h s hmem
  · exact (List.mem_append.mp hmem).elim (hhere s) (nulFree_segments h s)

end Path

lemma nulFree_place {root : String} {p : Place} (hroot : NulFree root) (h : ∀ s ∈ p, NulFree s) :
    NulFree (Place.name root p) := by
  intro hnul
  rw [Place.name, String.toList_append, String.toList_intercalate, List.mem_append] at hnul
  rcases hnul with hnul | hnul
  · exact hroot hnul
  · rcases Text.mem_intercalate hnul with hnul | ⟨w, hw, hnul⟩
    · exact absurd hnul (by decide)
    · obtain ⟨s, hs, rfl⟩ := List.mem_map.mp hw
      exact h s hs hnul

namespace Tree

lemma directoryFault?_ne_nul {name : String} (h : NulFree name) (segment : String) :
    directoryFault? name segment ≠ some .nul := by
  unfold directoryFault?
  split
  · next fault hfault => exact hfault ▸ nameFault?_ne_nul h
  · split <;> simp

lemma follow_ne_nul (t : Tree) (above : Place) (ss : List String) :
    t.follow above ss ≠ .error .nul := by
  induction ss generalizing above with
  | nil => simp [follow]
  | cons s ss ih =>
    rw [follow]
    split
    · simp
    · simp
    · split
      · exact ih above
      · split
        · exact ih above.dropLast
        · split
          · simp
          · exact ih (above ++ [s])

lemma locate_ne_nul (t : Tree) (p : Path) : t.locate p ≠ .error .nul := by
  unfold locate
  split
  · simp
  · exact t.follow_ne_nul _ _

lemma locateNew_ne_nul (t : Tree) (p : Path) : t.locateNew p ≠ .error .nul := by
  unfold locateNew
  split
  · intro h
    rcases Except.bind_eq_error_iff.mp h with h | ⟨_, -, h⟩
    · exact t.follow_ne_nul _ _ h
    · simp at h
  · exact t.locate_ne_nul p

lemma atName_ne_nul {α : Type} {name : String} (hname : NulFree name)
    {find : Path → Except Fault Place} {use : Place → Except Fault α}
    (hfind : ∀ p, find p ≠ .error .nul) (huse : ∀ p, use p ≠ .error .nul) {e : Error}
    (h : atName name find use = .error e) : e.fault ≠ .nul := by
  rcases atName_eq_error_iff.mp h with ⟨fault, hfault, rfl⟩ | ⟨-, fault, hfault, rfl⟩
  · rintro rfl
    exact nameFault?_ne_nul hname hfault
  · rintro rfl
    exact hfault.elim (hfind _) fun ⟨place, _, hplace⟩ => huse place hplace

lemma read_ne_nul {t : Tree} {name : String} (hname : NulFree name) {e : Error}
    (h : t.read name = .error e) : e.fault ≠ .nul := by
  refine atName_ne_nul hname t.locate_ne_nul (fun p => ?_) h
  unfold readAt
  split <;> simp

lemma openNew_ne_nul {t : Tree} {name : String} (hname : NulFree name) {content : List UInt8}
    {e : Error} (h : t.openNew name content = .error e) : e.fault ≠ .nul := by
  refine atName_ne_nul hname t.locateNew_ne_nul (fun p hp => ?_) h
  exact absurd (writeAt_eq_error_iff.mp hp).2 (by simp)

lemma makeDirectories_ne_nul {t made : Tree} {root : String} {above : Place} {ss : List String}
    {e : Error} (hroot : NulFree root) (habove : ∀ s ∈ above, NulFree s)
    (hss : ∀ s ∈ ss, NulFree s) (h : t.makeDirectories root above ss = .error (e, made)) :
    e.fault ≠ .nul := by
  induction ss generalizing t above with
  | nil => cases h
  | cons s ss ih =>
    have hplace : ∀ s' ∈ above ++ [s], NulFree s' := by
      simp only [List.forall_mem_append, List.forall_mem_singleton]
      exact ⟨habove, hss s List.mem_cons_self⟩
    have hrest : ∀ s' ∈ ss, NulFree s' := fun s' hs' => hss s' (List.mem_cons_of_mem s hs')
    unfold makeDirectories at h
    simp only at h
    split at h
    · exact ih hplace hrest h
    · split at h
      · obtain ⟨rfl, -⟩ := Prod.mk.inj (Except.error.inj h)
        simp
      · next s' _ =>
        obtain ⟨rfl, -⟩ := Prod.mk.inj (Except.error.inj h)
        have hbelow : NulFree (Place.name root ((above ++ [s]) ++ [s'])) := by
          refine nulFree_place hroot ?_
          simp only [List.forall_mem_append, List.forall_mem_singleton] at hplace ⊢
          exact ⟨hplace, hrest s' List.mem_cons_self⟩
        cases hfault : nameFault? (Place.name root ((above ++ [s]) ++ [s'])) with
        | none => simp
        | some fault =>
          rintro rfl
          exact nameFault?_ne_nul hbelow hfault
    · split at h
      · next fault hfault =>
        obtain ⟨rfl, -⟩ := Prod.mk.inj (Except.error.inj h)
        rintro rfl
        exact directoryFault?_ne_nul (nulFree_place hroot hplace) s hfault
      · exact ih hplace hrest h

lemma write_ne_nul {t u : Tree} {name : String} {content : List UInt8} {e : Error}
    (hname : NulFree name) (hhere : ∀ s ∈ t.here, NulFree s)
    (h : t.write name content = (some e, u)) : e.fault ≠ .nul := by
  cases write_eq_iff.mp h with
  | unmade hparents =>
    refine makeDirectories_ne_nul (Path.nulFree_fullRoot name) (by simp) (fun s hs => ?_) hparents
    exact Path.nulFree_full hname hhere s (List.dropLast_subset _ hs)
  | unopened _ hopen => exact openNew_ne_nul hname hopen

end Tree

end Lindenmayer.Files
