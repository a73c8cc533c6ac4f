import Lindenmayer.Proofs.Svg.Escaping
import Lindenmayer.Proofs.Xml.Tags

/-! What stands between tags: escaped data, which is read as the text that was escaped, and elements,
each with the space in front of it. -/

namespace Lindenmayer

namespace Text

lemma unifyBreaks_eq_append (done s : List Char) :
    unifyBreaks done s = done.reverse ++ unifyBreaks [] s := by
  have hacc : ∀ done s, ∀ front : List Char,
      unifyBreaks (done ++ front) s = front.reverse ++ unifyBreaks done s := by
    intro done s
    induction done, s using unifyBreaks.induct with
    | case1 done => simp [unifyBreaks]
    | case2 done s ih | case3 done s h ih =>
      intro front
      simp only [unifyBreaks]
      exact ih front
    | case4 done c s h h' ih =>
      intro front
      rw [unifyBreaks, unifyBreaks]
      · exact ih front
      all_goals assumption
  exact hacc [] s done

lemma unifyBreaks_return_lineFeed (s : List Char) :
    unifyBreaks [] ('\r' :: '\n' :: s) = '\n' :: unifyBreaks [] s := by
  rw [unifyBreaks, unifyBreaks_eq_append]
  rfl

lemma unifyBreaks_return {s : List Char} (h : ∀ s', s ≠ '\n' :: s') :
    unifyBreaks [] ('\r' :: s) = '\n' :: unifyBreaks [] s := by
  rw [unifyBreaks, unifyBreaks_eq_append]
  · rfl
  · exact fun s' heq => h s' heq

lemma unifyBreaks_cons {c : Char} (h : c ≠ '\r') (s : List Char) :
    unifyBreaks [] (c :: s) = c :: unifyBreaks [] s := by
  rw [unifyBreaks, unifyBreaks_eq_append]
  · rfl
  · exact fun _ heq => absurd heq h
  · exact h

lemma unifyBreaks_append {front : List Char} (h : '\r' ∉ front) (s : List Char) :
    unifyBreaks [] (front ++ s) = front ++ unifyBreaks [] s := by
  induction front with
  | nil => rfl
  | cons c front ih =>
    obtain ⟨hc, hfront⟩ := not_or.mp (mt List.mem_cons.mpr h)
    rw [List.cons_append, unifyBreaks_cons (Ne.symm hc), ih hfront]
    rfl

lemma unifyBreaks_ne_nil {s : List Char} (h : s ≠ []) : unifyBreaks [] s ≠ [] := by
  have hall : ∀ done s : List Char, s ≠ [] → unifyBreaks [] s ≠ [] := by
    intro done s
    induction done, s using unifyBreaks.induct with
    | case1 done => exact fun hnil => absurd rfl hnil
    | case2 done s ih =>
      rw [unifyBreaks_return_lineFeed]
      exact fun _ => List.cons_ne_nil _ _
    | case3 done s h ih =>
      rw [unifyBreaks_return fun s' => h s']
      exact fun _ => List.cons_ne_nil _ _
    | case4 done c s h h' ih =>
      rw [unifyBreaks_cons h']
      exact fun _ => List.cons_ne_nil _ _
  exact hall [] s h

lemma forall_mem_unifyBreaks {p : Char → Prop} (hreturn : p '\r') (hfeed : p '\n') (s : List Char) :
    (∀ c ∈ unifyBreaks [] s, p c) ↔ ∀ c ∈ s, p c := by
  have hall : ∀ done s : List Char, (∀ c ∈ unifyBreaks [] s, p c) ↔ ∀ c ∈ s, p c := by
    intro done s
    induction done, s using unifyBreaks.induct with
    | case1 done => simp [unifyBreaks]
    | case2 done s ih => simp [unifyBreaks_return_lineFeed, ih, hreturn, hfeed]
    | case3 done s h ih => simp [unifyBreaks_return fun s' => h s', ih, hreturn, hfeed]
    | case4 done c s h h' ih => simp [unifyBreaks_cons h', ih]
  exact hall [] s

end Text

namespace Svg

lemma lineFeed_escapeTitle {s s' : List Char} (h : escapeTitle s = '\n' :: s') :
    ∃ s'', s = '\n' :: s'' := by
  cases s with
  | nil => cases h
  | cons c s =>
    rw [escapeTitle_cons] at h
    unfold escapeChar at h
    split at h
    · cases h
    · split at h
      · cases h
      · split at h
        · cases h
        · exact ⟨s, congrArg (· :: s) (List.cons.inj h).1⟩

lemma return_notMem_escapeChar {c : Char} (h : c ≠ '\r') : '\r' ∉ escapeChar c := by
  unfold escapeChar
  split
  · decide
  · split
    · decide
    · split
      · decide
      · exact fun hmem => h (List.mem_singleton.mp hmem).symm

/-- Escaping leaves the breaks where they are. -/
lemma unifyBreaks_escapeTitle (s : List Char) :
    Text.unifyBreaks [] (escapeTitle s) = escapeTitle (Text.unifyBreaks [] s) := by
  have hreturn : escapeChar '\r' = ['\r'] := rfl
  have hfeed : escapeChar '\n' = ['\n'] := rfl
  have hall : ∀ done s : List Char,
      Text.unifyBreaks [] (escapeTitle s) = escapeTitle (Text.unifyBreaks [] s) := by
    intro done s
    induction done, s using Text.unifyBreaks.induct with
    | case1 done => rfl
    | case2 done s ih =>
      rw [Text.unifyBreaks_return_lineFeed, escapeTitle_cons, escapeTitle_cons, escapeTitle_cons,
        hreturn, hfeed, ← ih]
      exact Text.unifyBreaks_return_lineFeed _
    | case3 done s h ih =>
      have hs : ∀ s', escapeTitle s ≠ '\n' :: s' := by
        intro s' heq
        obtain ⟨s'', hs''⟩ := lineFeed_escapeTitle heq
        exact h s'' hs''
      rw [Text.unifyBreaks_return fun s' => h s', escapeTitle_cons, escapeTitle_cons, hreturn,
        hfeed, ← ih]
      exact Text.unifyBreaks_return hs
    | case4 done c s h h' ih =>
      rw [Text.unifyBreaks_cons h', escapeTitle_cons, escapeTitle_cons, ← ih]
      exact Text.unifyBreaks_append (return_notMem_escapeChar h') _
  exact hall [] s

end Svg

namespace Xml

open Svg (escapeChar escapeTitle)

lemma resolve_escapeChar (c : Char) (s : List Char) :
    resolve dataChar? none (escapeChar c ++ s) =
      (dataChar? c).bind fun d => (resolve dataChar? none s).bind fun ds => some (d :: ds) := by
  by_cases hamp : c = '&'
  · subst hamp
    rfl
  · by_cases hlt : c = '<'
    · subst hlt
      rfl
    · by_cases hgt : c = '>'
      · subst hgt
        rfl
      · rw [Svg.escapeChar_of_ne ⟨hamp, hlt, hgt⟩, List.singleton_append, resolve, if_neg hamp]
        rfl

lemma resolve_escapeTitle_eq_some_iff {s t : List Char} :
    resolve dataChar? none (escapeTitle s) = some t ↔ t = s ∧ ∀ c ∈ s, isChar c = true := by
  induction s generalizing t with
  | nil =>
    constructor
    · intro h
      exact ⟨(Option.some.inj h).symm, fun _ hc => absurd hc List.not_mem_nil⟩
    · rintro ⟨rfl, -⟩
      rfl
  | cons c s ih =>
    rw [Svg.escapeTitle_cons, resolve_escapeChar, Option.bind_eq_some_iff, List.forall_mem_cons]
    constructor
    · rintro ⟨d, hd, h⟩
      obtain ⟨ds, hds, h⟩ := Option.bind_eq_some_iff.mp h
      obtain rfl := Option.some.inj h
      obtain ⟨rfl, hs⟩ := ih.mp hds
      unfold dataChar? at hd
      split at hd
      · next hchar =>
        obtain rfl := Option.some.inj hd
        exact ⟨rfl, hchar, hs⟩
      · cases hd
    · rintro ⟨rfl, hchar, hs⟩
      refine ⟨c, if_pos hchar, ?_⟩
      rw [ih.mpr ⟨rfl, hs⟩]
      rfl

lemma isSectionEnd_of_notMem {s : List Char} (h : '>' ∉ s) : isSectionEnd s = false := by
  induction s with
  | nil => rfl
  | cons c s ih =>
    rw [isSectionEnd, ih (fun hmem => h (List.mem_cons_of_mem c hmem)), Bool.or_false]
    refine Bool.eq_false_iff.mpr fun hprefix => h ?_
    exact (List.isPrefixOf_iff_prefix.mp hprefix).subset (by decide)

lemma texts?_escapeTitle_iff {s : List Char} (hs : s ≠ []) {ts : List Node} :
    texts? (escapeTitle s) = some ts ↔
      ts = [.text (Text.unifyBreaks [] s)] ∧ ∀ c ∈ s, isChar c = true := by
  have hsection := isSectionEnd_of_notMem (Svg.notMem_escapeTitle (.inr rfl) s)
  have hlegal := Text.forall_mem_unifyBreaks (p := fun c => isChar c = true) rfl rfl s
  have hne : (Text.unifyBreaks [] s).isEmpty = false := by
    rw [List.isEmpty_eq_false_iff]
    exact Text.unifyBreaks_ne_nil hs
  rw [texts?, hsection, if_neg Bool.false_ne_true, decode, Svg.unifyBreaks_escapeTitle,
    Option.map_eq_some_iff, ← hlegal]
  constructor
  · rintro ⟨t, ht, rfl⟩
    obtain ⟨rfl, hchars⟩ := resolve_escapeTitle_eq_some_iff.mp ht
    rw [hne]
    exact ⟨rfl, hchars⟩
  · rintro ⟨rfl, hchars⟩
    refine ⟨_, resolve_escapeTitle_eq_some_iff.mpr ⟨rfl, hchars⟩, ?_⟩
    rw [hne]
    rfl

lemma span_open {raw : List Char} (h : '<' ∉ raw) (s : List Char) :
    (raw ++ '<' :: s).span (· != '<') = (raw, '<' :: s) := by
  rw [List.span_eq_takeWhile_dropWhile, takeWhile_append_quote, dropWhile_append_quote h]
  have hraw : raw.takeWhile (· != '<') = raw := by
    refine List.takeWhile_eq_self_iff.mpr fun c hc => bne_iff_ne.mpr ?_
    rintro rfl
    exact h hc
  rw [hraw]

lemma endTag?_append (n rest : List Char) :
    endTag? n ('<' :: '/' :: (n ++ '>' :: rest)) = some rest := by
  have htag : ('<' :: '/' :: (n ++ '>' :: rest)).dropPrefix? ('<' :: '/' :: n) =
      some ('>' :: rest) :=
    List.dropPrefix?_append_of_beq _ (beq_self_eq_true _)
  have hbracket : isSpace '>' = false := rfl
  rw [endTag?, htag]
  simp [hbracket, List.dropPrefix?]

section Contents

variable {raw s rest : List Char} {ts ns : List Node} {n : Node} {fuel : ℕ}

lemma content?_close (hraw : '<' ∉ raw) :
    content? (fuel + 1) (raw ++ '<' :: '/' :: s) =
      (texts? raw).bind fun ts => some (ts, '<' :: '/' :: s) := by
  rw [content?, span_open hraw]
  rfl

lemma content?_child_iff (hraw : '<' ∉ raw) (hts : texts? raw = some ts) {c : Char} (hc : c ≠ '/') :
    content? (fuel + 1) (raw ++ '<' :: c :: s) = some (ts ++ n :: ns, rest) ↔
      ∃ r, element? (content? fuel) ('<' :: c :: s) = some (n, r) ∧
        content? fuel r = some (ns, rest) := by
  have hopen : "</".toList.isPrefixOf ('<' :: c :: s) = false := by
    simp [List.isPrefixOf, Ne.symm hc]
  have hread : content? (fuel + 1) (raw ++ '<' :: c :: s) =
      (element? (content? fuel) ('<' :: c :: s)).bind fun p =>
        (content? fuel p.2).bind fun q => some (ts ++ p.1 :: q.1, q.2) := by
    rw [content?, span_open hraw]
    simp only [hts, hopen, Option.bind_eq_bind, Option.bind_some, Bool.false_eq_true, if_false]
  rw [hread, Option.bind_eq_some_iff]
  constructor
  · rintro ⟨⟨n', r⟩, hn, h⟩
    obtain ⟨⟨ns', rest'⟩, hns, h⟩ := Option.bind_eq_some_iff.mp h
    obtain ⟨hnodes, rfl⟩ := Prod.mk.inj (Option.some.inj h)
    obtain ⟨rfl, rfl⟩ := List.cons.inj (List.append_cancel_left hnodes)
    exact ⟨r, hn, hns⟩
  · rintro ⟨r, hn, hns⟩
    refine ⟨(n, r), hn, ?_⟩
    rw [hns]
    rfl

/-- A source of an element that reads as a node just when something is faithful. -/
structure ReadsAs (source : List Char) (node : Node) (faithful : Prop) : Prop where
  opens : ∃ c s, source = '<' :: c :: s ∧ c ≠ '/'
  read (fuel : ℕ) (rest rest' : List Char) :
    element? (content? (fuel + 1)) (source ++ rest) = some (node, rest') ↔ faithful ∧ rest' = rest

def indent : List Char := "\n  ".toList

/-- Elements on lines of their own are read one after the other. -/
lemma content?_children_iff {α : Type} {source : α → List Char} {node : α → Node} {p : α → Prop}
    {items : List α} (h : ∀ a ∈ items, ReadsAs (source a) (node a) (p a)) :
    content? (fuel + 1 + items.length) (items.flatMap (fun a => indent ++ source a) ++ s) =
        some (items.flatMap (fun a => [.text indent, node a]) ++ ns, rest) ↔
      (∀ a ∈ items, p a) ∧ content? (fuel + 1) s = some (ns, rest) := by
  induction items with
  | nil => simp
  | cons a items ih =>
    obtain ⟨ha, hitems⟩ := List.forall_mem_cons.mp h
    obtain ⟨c, s', hsource, hc⟩ := ha.opens
    have hindent : '<' ∉ indent := by decide
    have hts : texts? indent = some [.text indent] := rfl
    have hfuel : fuel + 1 + items.length = fuel + items.length + 1 := by omega
    have hread (r : List Char) := ha.read (fuel + items.length)
      (items.flatMap (fun a => indent ++ source a) ++ s) r
    rw [List.flatMap_cons, List.flatMap_cons, List.append_assoc, List.append_assoc, List.length_cons,
      ← Nat.add_assoc, List.append_assoc, List.forall_mem_cons, and_assoc, ← ih hitems]
    rw [hsource, List.cons_append, List.cons_append] at hread ⊢
    refine (content?_child_iff hindent hts hc).trans ?_
    rw [hfuel]
    constructor
    · rintro ⟨r, hr, hns⟩
      obtain ⟨hp, rfl⟩ := (hread r).mp hr
      exact ⟨hp, hns⟩
    · rintro ⟨hp, hns⟩
      exact ⟨_, (hread _).mpr ⟨hp, rfl⟩, hns⟩

end Contents

end Xml

end Lindenmayer
