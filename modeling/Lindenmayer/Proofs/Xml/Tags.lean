import Lindenmayer.Proofs.Xml.Verbatim

/-! Tags and their contents, read as they were written: an element is read with the attributes that
were written into its tag if and only if their values are verbatim. -/

namespace Lindenmayer.Xml

structure IsName (n : List Char) : Prop where
  start : n.head?.any isNameStart = true
  rest : ∀ c ∈ n, isNameChar c = true

def written (a : List Char × List Char) : List Char := ' ' :: (a.1 ++ '=' :: '"' :: (a.2 ++ ['"']))

lemma isName_literal {n : List Char}
    (h : (n.head?.any isNameStart && n.all isNameChar) = true) : IsName n := by
  obtain ⟨hstart, hrest⟩ := Bool.and_eq_true_iff.mp h
  exact ⟨hstart, List.all_eq_true.mp hrest⟩

lemma isNameChar_of_isSpace {c : Char} (h : isSpace c = true) : isNameChar c = false := by
  simp only [isSpace, Bool.or_eq_true, beq_iff_eq] at h
  rcases h with ((rfl | rfl) | rfl) | rfl <;> decide

lemma isSpace_of_isNameStart {c : Char} (h : isNameStart c = true) : isSpace c = false := by
  refine Bool.eq_false_iff.mpr fun hspace => ?_
  have hname := isNameChar_of_isSpace hspace
  simp [isNameChar, h] at hname

lemma name?_append {n rest : List Char} (hn : IsName n)
    (hrest : ∀ c ∈ rest.head?, isNameChar c = false) : name? (n ++ rest) = some (n, rest) := by
  obtain ⟨c, n', rfl⟩ := List.exists_cons_of_ne_nil (l := n) (by
    rintro rfl
    exact nomatch hn.start)
  have htake : rest.takeWhile isNameChar = [] := by
    cases rest with
    | nil => rfl
    | cons c rest => simp [hrest c rfl]
  have hdrop : rest.dropWhile isNameChar = rest := by
    cases rest with
    | nil => rfl
    | cons c rest => simp [hrest c rfl]
  have hstart : (((c :: n') ++ rest).head?.any isNameStart) = true := hn.start
  rw [name?, if_pos hstart, List.span_eq_takeWhile_dropWhile,
    List.takeWhile_append_of_pos hn.rest, List.dropWhile_append_of_pos hn.rest, htake, hdrop,
    List.append_nil]

section Attributes

variable {n v rest rest' : List Char} {as : List (List Char × List Char)}

lemma attribute?_eq_some_iff (hn : IsName n) :
    attribute? (n ++ '=' :: '"' :: (v ++ '"' :: rest)) = some ((n, v), rest') ↔
      Verbatim v ∧ rest' = rest := by
  have hequals : ∀ c ∈ ('=' :: '"' :: (v ++ '"' :: rest)).head?, isNameChar c = false := by
    rintro c ⟨⟩
    decide
  have hvalue : attribute? (n ++ '=' :: '"' :: (v ++ '"' :: rest)) =
      (value? ('"' :: (v ++ '"' :: rest))).map fun p => ((n, p.1), p.2) := by
    rw [attribute?, name?_append hn hequals, Option.map_eq_bind]
    rfl
  rw [hvalue, ← value?_eq_some_iff, Option.map_eq_some_iff]
  constructor
  · rintro ⟨⟨v', s⟩, hread, h⟩
    obtain ⟨hname, rfl⟩ := Prod.mk.inj h
    obtain ⟨-, rfl⟩ := Prod.mk.inj hname
    exact hread
  · intro hread
    exact ⟨(v, rest'), hread, rfl⟩

lemma attributes?_written_iff (hn : IsName n) {fuel : ℕ} :
    attributes? (fuel + 1) (written (n, v) ++ rest) = some ((n, v) :: as, rest') ↔
      Verbatim v ∧ attributes? fuel rest = some (as, rest') := by
  obtain ⟨c, n', rfl⟩ := List.exists_cons_of_ne_nil (l := n) (by
    rintro rfl
    exact nomatch hn.start)
  have hstart : isNameStart c = true := hn.start
  have hspace := isSpace_of_isNameStart hstart
  have hinner : (written (c :: n', v) ++ rest).dropWhile isSpace =
      (c :: n') ++ '=' :: '"' :: (v ++ '"' :: rest) := by
    have hplain : isSpace ' ' = true := rfl
    simp [written, hplain, hspace]
  have hread : attributes? (fuel + 1) (written (c :: n', v) ++ rest) =
      (attribute? ((c :: n') ++ '=' :: '"' :: (v ++ '"' :: rest))).bind fun p =>
        (attributes? fuel p.2).bind fun q => some (p.1 :: q.1, q.2) := by
    simp only [attributes?, hinner]
    rw [if_pos]
    · rfl
    · exact Bool.and_eq_true_iff.mpr ⟨rfl, hn.start⟩
  rw [hread]
  constructor
  · intro h
    obtain ⟨⟨a, s⟩, ha, h⟩ := Option.bind_eq_some_iff.mp h
    obtain ⟨⟨as', s'⟩, has, h⟩ := Option.bind_eq_some_iff.mp h
    obtain ⟨hcons, rfl⟩ := Prod.mk.inj (Option.some.inj h)
    obtain ⟨rfl, rfl⟩ := List.cons.inj hcons
    obtain ⟨hv, rfl⟩ := (attribute?_eq_some_iff hn).mp ha
    exact ⟨hv, has⟩
  · rintro ⟨hv, has⟩
    rw [(attribute?_eq_some_iff hn).mpr ⟨hv, rfl⟩, Option.bind_some, has]
    rfl

lemma attributes?_flatMap_iff (hnames : ∀ a ∈ as, IsName a.1) {fuel : ℕ}
    {as' : List (List Char × List Char)} :
    attributes? (fuel + as.length) (as.flatMap written ++ rest) = some (as ++ as', rest') ↔
      (∀ a ∈ as, Verbatim a.2) ∧ attributes? fuel rest = some (as', rest') := by
  induction as generalizing fuel with
  | nil => simp
  | cons a as ih =>
    obtain ⟨hn, has⟩ := List.forall_mem_cons.mp hnames
    rw [List.flatMap_cons, List.append_assoc, List.length_cons, ← Nat.add_assoc, List.cons_append,
      attributes?_written_iff hn, ih has, List.forall_mem_cons, and_assoc]

end Attributes

lemma length_le_length_flatMap {α β : Type} {f : α → List β} (h : ∀ a, f a ≠ []) (l : List α) :
    l.length ≤ (l.flatMap f).length := by
  induction l with
  | nil => exact Nat.le_refl 0
  | cons a l ih =>
    have hpos := List.length_pos_of_ne_nil (h a)
    rw [List.flatMap_cons, List.length_append, List.length_cons]
    omega

/-- Where no attribute comes any more. -/
structure Ends (s s' : List Char) : Prop where
  head : ∀ c ∈ s.head?, isNameChar c = false
  attributes (fuel : ℕ) : attributes? (fuel + 1) s = some ([], s')

lemma ends_slash (rest : List Char) : Ends (' ' :: '/' :: '>' :: rest) ('/' :: '>' :: rest) where
  head := by
    rintro c ⟨⟩
    decide
  attributes _ := rfl

lemma ends_bracket (rest : List Char) : Ends ('>' :: rest) ('>' :: rest) where
  head := by
    rintro c ⟨⟩
    decide
  attributes _ := rfl

/-- All attributes are read, however many there are. -/
lemma attributes?_ends_iff {as : List (List Char × List Char)} {tail tail' rest : List Char}
    (hnames : ∀ a ∈ as, IsName a.1) (htail : Ends tail tail') :
    attributes? ((as.flatMap written ++ tail).length + 1) (as.flatMap written ++ tail) =
        some (as, rest) ↔
      (∀ a ∈ as, Verbatim a.2) ∧ rest = tail' := by
  obtain ⟨fuel, hfuel⟩ : ∃ fuel, (as.flatMap written ++ tail).length + 1 = fuel + 1 + as.length := by
    have hle : as.length ≤ (as.flatMap written).length :=
      length_le_length_flatMap (fun _ => List.cons_ne_nil _ _) as
    refine ⟨(as.flatMap written ++ tail).length - as.length, ?_⟩
    rw [List.length_append]
    omega
  have hend : attributes? (fuel + 1) tail = some ([], rest) ↔ rest = tail' := by
    rw [htail.attributes, Option.some.injEq, Prod.mk.injEq, eq_self, true_and, eq_comm]
  rw [hfuel, ← hend, ← attributes?_flatMap_iff hnames, List.append_nil]

lemma element?_eq_some_iff {content : List Char → Option (List Node × List Char)}
    {s n rest : List Char} {as : List (List Char × List Char)} {ns : List Node} :
    element? content s = some (.element n as ns, rest) ↔
      ∃ s', openTag? s = some ((n, as), s') ∧
        ((ns = [] ∧ s' = '/' :: '>' :: rest) ∨
          ∃ inner r, s' = '>' :: inner ∧ content inner = some (ns, r) ∧ endTag? n r = some rest) := by
  unfold element?
  constructor
  · intro h
    obtain ⟨⟨⟨n', as'⟩, s'⟩, htag, h⟩ := Option.bind_eq_some_iff.mp h
    simp only at h
    split at h
    · obtain ⟨hnode, rfl⟩ := Prod.mk.inj (Option.some.inj h)
      obtain ⟨rfl, rfl, rfl⟩ := Node.element.inj hnode
      exact ⟨_, htag, .inl ⟨rfl, rfl⟩⟩
    · next inner =>
      obtain ⟨⟨ns', r⟩, hcontent, h⟩ := Option.bind_eq_some_iff.mp h
      obtain ⟨rest', hend, h⟩ := Option.bind_eq_some_iff.mp h
      obtain ⟨hnode, rfl⟩ := Prod.mk.inj (Option.some.inj h)
      obtain ⟨rfl, rfl, rfl⟩ := Node.element.inj hnode
      exact ⟨_, htag, .inr ⟨inner, r, rfl, hcontent, hend⟩⟩
    · cases h
  · rintro ⟨s', htag, ⟨rfl, rfl⟩ | ⟨inner, r, rfl, hcontent, hend⟩⟩
    · rw [htag]
      rfl
    · rw [htag]
      simp only [Option.bind_eq_bind, Option.bind_some, hcontent, hend]

section Elements

variable {n tail tail' rest rest' : List Char} {as : List (List Char × List Char)} {ns : List Node}
  {content : List Char → Option (List Node × List Char)}

lemma openTag?_eq_some_iff (hn : IsName n) (hnames : ∀ a ∈ as, IsName a.1)
    (hnodup : (as.map Prod.fst).Nodup) (htail : Ends tail tail') :
    openTag? ('<' :: (n ++ (as.flatMap written ++ tail))) = some ((n, as), rest) ↔
      (∀ a ∈ as, Verbatim a.2) ∧ rest = tail' := by
  have hhead : ∀ c ∈ (as.flatMap written ++ tail).head?, isNameChar c = false := by
    cases as with
    | nil => exact htail.head
    | cons a as =>
      rintro c ⟨⟩
      decide
  have hread : openTag? ('<' :: (n ++ (as.flatMap written ++ tail))) =
      (attributes? ((as.flatMap written ++ tail).length + 1) (as.flatMap written ++ tail)).bind
        fun p => if (p.1.map Prod.fst).Nodup then some ((n, p.1), p.2) else none := by
    simp only [openTag?, List.dropPrefix?, beq_self_eq_true, if_true, Option.bind_eq_bind,
      Option.bind_some, name?_append hn hhead]
  rw [hread, ← attributes?_ends_iff hnames htail]
  constructor
  · intro h
    obtain ⟨⟨as', s⟩, has, h⟩ := Option.bind_eq_some_iff.mp h
    split at h
    · obtain ⟨htag, rfl⟩ := Prod.mk.inj (Option.some.inj h)
      obtain ⟨-, rfl⟩ := Prod.mk.inj htag
      exact has
    · cases h
  · intro has
    rw [has, Option.bind_some, if_pos hnodup]

/-- An empty element reads as it was written just when its values are verbatim. -/
lemma element?_empty_iff (hn : IsName n) (hnames : ∀ a ∈ as, IsName a.1)
    (hnodup : (as.map Prod.fst).Nodup) :
    element? content ('<' :: (n ++ (as.flatMap written ++ ' ' :: '/' :: '>' :: rest))) =
        some (.element n as [], rest') ↔
      (∀ a ∈ as, Verbatim a.2) ∧ rest' = rest := by
  have htag (s : List Char) :
      openTag? ('<' :: (n ++ (as.flatMap written ++ ' ' :: '/' :: '>' :: rest))) = some ((n, as), s) ↔
        (∀ a ∈ as, Verbatim a.2) ∧ s = '/' :: '>' :: rest :=
    openTag?_eq_some_iff hn hnames hnodup (ends_slash rest)
  rw [element?_eq_some_iff]
  constructor
  · rintro ⟨s, hs, hend⟩
    obtain ⟨hverbatim, rfl⟩ := (htag s).mp hs
    rcases hend with ⟨-, hend⟩ | ⟨inner, r, hend, -⟩
    · cases hend
      exact ⟨hverbatim, rfl⟩
    · cases hend
  · rintro ⟨hverbatim, rfl⟩
    exact ⟨_, (htag _).mpr ⟨hverbatim, rfl⟩, .inl ⟨rfl, rfl⟩⟩

lemma element?_open_iff (hn : IsName n) (hnames : ∀ a ∈ as, IsName a.1)
    (hnodup : (as.map Prod.fst).Nodup) :
    element? content ('<' :: (n ++ (as.flatMap written ++ '>' :: rest))) =
        some (.element n as ns, rest') ↔
      (∀ a ∈ as, Verbatim a.2) ∧ ∃ r, content rest = some (ns, r) ∧ endTag? n r = some rest' := by
  have htag (s : List Char) :
      openTag? ('<' :: (n ++ (as.flatMap written ++ '>' :: rest))) = some ((n, as), s) ↔
        (∀ a ∈ as, Verbatim a.2) ∧ s = '>' :: rest :=
    openTag?_eq_some_iff hn hnames hnodup (ends_bracket rest)
  rw [element?_eq_some_iff]
  constructor
  · rintro ⟨s, hs, hend⟩
    obtain ⟨hverbatim, rfl⟩ := (htag s).mp hs
    rcases hend with ⟨-, hend⟩ | ⟨inner, r, hend, hcontent⟩
    · cases hend
    · cases hend
      exact ⟨hverbatim, r, hcontent⟩
  · rintro ⟨hverbatim, r, hcontent⟩
    exact ⟨_, (htag _).mpr ⟨hverbatim, rfl⟩, .inr ⟨rest, r, rfl, hcontent⟩⟩

end Elements

end Lindenmayer.Xml
