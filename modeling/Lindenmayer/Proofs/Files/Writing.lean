import Lindenmayer.Files.Tree
import Lindenmayer.Proofs.Except

/-! Writing a file. A file that is written is the only one that changes, and it is found again under its
name; one that cannot be written leaves new directories behind at most. -/

namespace Lindenmayer.Files.Tree

lemma lookup_cons_place (p : Place) (x : Place × Entry) (xs : List (Place × Entry)) :
    (x :: xs).lookup p = if p = x.1 then some x.2 else xs.lookup p := by
  obtain ⟨q, e⟩ := x
  by_cases h : p = q
  · simp [h]
  · simp [List.lookup_cons, h, beq_eq_false_iff_ne.mpr h]

lemma lookup_insertEntry (p : Place) (e : Entry) (q : Place) (xs : List (Place × Entry)) :
    (insertEntry p e xs).lookup q = if q = p then some e else xs.lookup q := by
  induction xs with
  | nil => exact lookup_cons_place q (p, e) []
  | cons x xs ih =>
    by_cases hx : x.1 = p
    · by_cases hq : q = p <;> simp [insertEntry, lookup_cons_place, hx, hq]
    · by_cases hq : q = p
      · subst hq
        simp [insertEntry, lookup_cons_place, hx, Ne.symm hx, ih]
      · simp [insertEntry, lookup_cons_place, hx, hq, ih]

@[simp] lemma find?_nil (t : Tree) : t.find? [] = some .directory := rfl

lemma find?_insert (t : Tree) {p : Place} (hp : p ≠ []) (e : Entry) (q : Place) :
    (t.insert p e).find? q = if q = p then some e else t.find? q := by
  unfold find?
  by_cases hq : q = []
  · simp [hq, Ne.symm hp]
  · simp only [hq, if_false]
    exact lookup_insertEntry p e q t.entries

lemma ne_nil_of_find? {t : Tree} {p : Place} (h : t.find? p ≠ some .directory) : p ≠ [] := by
  rintro rfl
  exact h t.find?_nil

def SameFiles (t u : Tree) : Prop :=
  ∀ p content, u.find? p = some (.file content) ↔ t.find? p = some (.file content)

lemma SameFiles.refl (t : Tree) : t.SameFiles t := fun _ _ => Iff.rfl

/-- The second tree is the first with directories made where nothing was. -/
structure Extends (t u : Tree) : Prop where
  here : u.here = t.here
  find? : ∀ p, u.find? p = t.find? p ∨ t.find? p = none ∧ u.find? p = some .directory

namespace Extends

variable {t u v : Tree}

lemma refl (t : Tree) : t.Extends t := ⟨rfl, fun _ => .inl rfl⟩

lemma trans (h₁ : t.Extends u) (h₂ : u.Extends v) : t.Extends v where
  here := h₂.here.trans h₁.here
  find? p := by
    rcases h₂.find? p with h | ⟨hu, hv⟩
    · rw [h]
      exact h₁.find? p
    · rcases h₁.find? p with h | ⟨-, hd⟩
      · exact .inr ⟨h ▸ hu, hv⟩
      · exact nomatch hu.symm.trans hd

lemma insert_directory {p : Place} (hp : p ≠ []) (h : t.find? p = none) :
    t.Extends (t.insert p .directory) where
  here := rfl
  find? q := by
    rw [find?_insert t hp]
    by_cases hq : q = p
    · subst hq
      exact .inr ⟨h, if_pos rfl⟩
    · exact .inl (if_neg hq)

lemma sameFiles (h : t.Extends u) : t.SameFiles u := by
  intro p content
  rcases h.find? p with heq | ⟨ht, hu⟩
  · rw [heq]
  · simp [ht, hu]

end Extends

/-- What is there when directories have been made, or not all of them. -/
def reached : Except (Error × Tree) Tree → Tree
  | .ok t => t
  | .error (_, t) => t

lemma makeDirectories_extends (t : Tree) (root : String) (above : Place) (ss : List String) :
    t.Extends (reached (t.makeDirectories root above ss)) := by
  induction ss generalizing t above with
  | nil => exact .refl t
  | cons s ss ih =>
    unfold makeDirectories
    simp only
    split
    · exact ih t _
    · split
      · exact .refl t
      · exact .refl t
    · next hnone =>
      split
      · exact .refl t
      · exact (Extends.insert_directory (by simp) hnone).trans (ih _ _)

lemma makeParents_extends (t : Tree) (p : Path) : t.Extends (reached (t.makeParents p)) :=
  t.makeDirectories_extends _ _ _

lemma locate_of_locateNew {t : Tree} {p : Path} {place : Place} (h : t.locateNew p = .ok place) :
    t.locate p = .ok place := by
  rw [locateNew] at h
  split at h
  · cases hfollow : t.follow (t.start p) (p.segments.dropLast ++ ["."]) <;> rw [hfollow] at h <;>
      cases h
  · exact h

lemma follow_insert {t : Tree} {q : Place} (hq : t.find? q ≠ some .directory) (content : List UInt8)
    {above place : Place} {ss : List String} (h : t.follow above ss = .ok place) :
    (t.insert q (.file content)).follow above ss = .ok place := by
  induction ss generalizing above with
  | nil => exact h
  | cons s ss ih =>
    rw [follow] at h ⊢
    cases habove : t.find? above with
    | none =>
      rw [habove] at h
      cases h
    | some e =>
      cases e with
      | file c =>
        rw [habove] at h
        cases h
      | directory =>
        -- A name leads through directories only, and the new file stands where there is none.
        have hne : above ≠ q := by
          rintro rfl
          exact hq habove
        rw [find?_insert t (ne_nil_of_find? hq), if_neg hne, habove]
        simp only [habove] at h ⊢
        split at h
        · next hs => simpa only [if_pos hs] using ih h
        · next hs =>
          split at h
          · next hs' => simpa only [if_neg hs, if_pos hs'] using ih h
          · next hs' =>
            split at h
            · cases h
            · next hsize => simpa only [if_neg hs, if_neg hs', if_neg hsize] using ih h

lemma locate_insert {t : Tree} {q : Place} (hq : t.find? q ≠ some .directory) (content : List UInt8)
    {p : Path} {place : Place} (h : t.locate p = .ok place) :
    (t.insert q (.file content)).locate p = .ok place := by
  rw [locate] at h ⊢
  split at h
  · cases h
  · next hp =>
    rw [if_neg hp]
    exact follow_insert hq content h

lemma atName_eq_ok_iff {α : Type} {name : String} {find : Path → Except Fault Place}
    {use : Place → Except Fault α} {a : α} :
    atName name find use = .ok a ↔
      nameFault? name = none ∧ ∃ place, find (.ofString name) = .ok place ∧ use place = .ok a := by
  unfold atName
  split
  · next hname => simp [hname]
  · next hname =>
    rw [Except.mapError_eq_ok_iff]
    exact Except.bind_eq_ok_iff.trans ⟨fun h => ⟨hname, h⟩, And.right⟩

lemma atName_eq_error_iff {α : Type} {name : String} {find : Path → Except Fault Place}
    {use : Place → Except Fault α} {e : Error} :
    atName name find use = .error e ↔
      (∃ fault, nameFault? name = some fault ∧ ⟨fault, name⟩ = e) ∨
      nameFault? name = none ∧ ∃ fault, (find (.ofString name) = .error fault ∨
        ∃ place, find (.ofString name) = .ok place ∧ use place = .error fault) ∧ ⟨fault, name⟩ = e := by
  unfold atName
  split
  · next hname => simp [hname]
  · next hname =>
    rw [Except.mapError_eq_error_iff]
    simp only [hname, reduceCtorEq, false_and, exists_false, false_or, true_and]
    exact exists_congr fun fault => and_congr_left fun _ => Except.bind_eq_error_iff

lemma openNew_eq_ok_iff {t u : Tree} {name : String} {content : List UInt8} :
    t.openNew name content = .ok u ↔
      nameFault? name = none ∧ ∃ place, t.locateNew (.ofString name) = .ok place ∧
        t.find? place ≠ some .directory ∧ u = t.insert place (.file content) := by
  rw [openNew, atName_eq_ok_iff]
  refine and_congr_right fun _ => exists_congr fun place => and_congr_right fun _ => ?_
  unfold writeAt
  split
  · next hd => simp [hd]
  · next hd => exact ⟨fun h => ⟨hd, (Except.ok.inj h).symm⟩, fun h => congrArg Except.ok h.2.symm⟩

lemma writeAt_eq_error_iff {t : Tree} {place : Place} {content : List UInt8} {fault : Fault} :
    t.writeAt place content = .error fault ↔
      t.find? place = some .directory ∧ .isDirectory = fault := by
  unfold writeAt
  split
  · next hd => simp [hd]
  · next hd => exact ⟨nofun, fun h => absurd h.1 hd⟩

lemma openNew_error {t : Tree} {name : String} {content : List UInt8} {e : Error}
    (h : t.openNew name content = .error e) (content' : List UInt8) :
    t.openNew name content' = .error e := by
  rw [openNew, atName_eq_error_iff] at h ⊢
  -- What is to be written is not looked at before the file is open.
  simpa only [writeAt_eq_error_iff] using h

inductive Writes (t : Tree) (name : String) (content : List UInt8) : Option Error → Tree → Prop
  | unmade {e made} : t.makeParents (.ofString name) = .error (e, made) →
      Writes t name content (some e) made
  | unopened {e made} : t.makeParents (.ofString name) = .ok made →
      made.openNew name content = .error e → Writes t name content (some e) made
  | written {made u} : t.makeParents (.ofString name) = .ok made →
      made.openNew name content = .ok u → Writes t name content none u

lemma write_eq_iff {t u : Tree} {name : String} {content : List UInt8} {e : Option Error} :
    t.write name content = (e, u) ↔ t.Writes name content e u := by
  unfold write
  constructor
  · intro h
    split at h
    · next hparents =>
      obtain ⟨rfl, rfl⟩ := Prod.mk.inj h
      exact .unmade hparents
    · next hparents =>
      split at h
      · next hopen =>
        obtain ⟨rfl, rfl⟩ := Prod.mk.inj h
        exact .unopened hparents hopen
      · next hopen =>
        obtain ⟨rfl, rfl⟩ := Prod.mk.inj h
        exact .written hparents hopen
  · intro h
    cases h with
    | unmade hparents => rw [hparents]
    | unopened hparents hopen => simp only [hparents, hopen]
    | written hparents hopen => simp only [hparents, hopen]

/-- A file can be made under the name. -/
def Creatable (t : Tree) (name : String) : Prop := ∃ content, (t.write name content).1 = none

lemma Creatable.write {t : Tree} {name : String} (h : t.Creatable name) (content : List UInt8) :
    ∃ u, t.write name content = (none, u) := by
  obtain ⟨content', h⟩ := h
  cases write_eq_iff.mp (Prod.ext h rfl : t.write name content' = (none, _)) with
  | written hparents hopen =>
    cases hopen' : Tree.openNew _ name content with
    | error e => exact nomatch hopen.symm.trans (openNew_error hopen' content')
    | ok u => exact ⟨u, write_eq_iff.mpr (.written hparents hopen')⟩

/-- A file has been written under a name. It is read back, and the other files are as they were. -/
structure Wrote (t u : Tree) (name : String) (content : List UInt8) : Prop where
  read : u.read name = .ok content
  others : ∀ p, u.locate (.ofString name) ≠ .ok p →
    ∀ c, u.find? p = some (.file c) ↔ t.find? p = some (.file c)

lemma wrote_of_openNew {t u : Tree} {name : String} {content : List UInt8}
    (h : t.openNew name content = .ok u) : t.Wrote u name content := by
  obtain ⟨hname, place, hplace, hfree, rfl⟩ := openNew_eq_ok_iff.mp h
  have hlocate : (t.insert place (.file content)).locate (.ofString name) = .ok place :=
    locate_insert hfree content (locate_of_locateNew hplace)
  have hfind := find?_insert t (ne_nil_of_find? hfree) (.file content)
  constructor
  · refine atName_eq_ok_iff.mpr ⟨hname, place, hlocate, ?_⟩
    rw [readAt, hfind, if_pos rfl]
  · intro p hp c
    have hne : p ≠ place := by
      rintro rfl
      exact hp hlocate
    rw [hfind, if_neg hne]

lemma wrote_of_write {t u : Tree} {name : String} {content : List UInt8}
    (h : t.write name content = (none, u)) : t.Wrote u name content := by
  cases write_eq_iff.mp h with
  | written hparents hopen =>
    have hmade := t.makeParents_extends (.ofString name)
    rw [hparents] at hmade
    have hwrote := wrote_of_openNew hopen
    exact ⟨hwrote.read, fun p hp c => (hwrote.others p hp c).trans (hmade.sameFiles p c)⟩

lemma sameFiles_of_write {t u : Tree} {name : String} {content : List UInt8} {e : Error}
    (h : t.write name content = (some e, u)) : t.SameFiles u := by
  have hmade := t.makeParents_extends (.ofString name)
  cases write_eq_iff.mp h with
  | unmade hparents | unopened hparents =>
    rw [hparents] at hmade
    exact hmade.sameFiles

end Lindenmayer.Files.Tree
