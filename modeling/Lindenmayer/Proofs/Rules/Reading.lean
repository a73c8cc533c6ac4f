import Lindenmayer.Proofs.Rules.Arrow

/-! What a rule text means. A line is silent, or it means an entry of the table, or it is at fault; and a
text is read line by line up to the first fault. -/

namespace Lindenmayer.Rules

open Text

variable {l : Text} {ls : List Text} {e : Word × Word} {es : List (Word × Word)}
  {f : TextError} {left right : Text} {t u : RuleTable}

/-- A line that says nothing is empty or a comment. -/
def Silent (l : Text) : Prop := trim l = [] ∨ (trim l).head? = some (.char '#')

/-- A line means what stands before and behind its first arrow. -/
structure Means (l : Text) (e : Word × Word) : Prop where
  loud : ¬ Silent l
  sides : ∃ left right, FirstArrow (trim l) left right ∧ e = (trim left, trim right)
  symbol : e.1.length = 1

def Legible (l : Text) : Prop :=
  Silent l ∨ ∃ left right, FirstArrow (trim l) left right ∧ (trim left).length = 1

inductive Fault (line : ℕ) (l : Text) : TextError → Prop
  | missingArrow (harrow : ¬ (['-', '>'] : Text) <:+: trim l) : Fault line l (.missingArrow line l)
  | notOneSymbol {left right : Text} (harrow : FirstArrow (trim l) left right) :
    Fault line l (.notOneSymbol line (trim left))

/-- The entries that some lines say, in their order. -/
inductive Told : List Text → List (Word × Word) → Prop
  | nil : Told [] []
  | silent {l : Text} {ls : List Text} {es : List (Word × Word)} (hl : Silent l)
    (h : Told ls es) : Told (l :: ls) es
  | entry {l : Text} {ls : List Text} {e : Word × Word} {es : List (Word × Word)}
    (hl : Means l e) (h : Told ls es) : Told (l :: ls) (e :: es)

lemma isSilent_iff : isSilent (trim l) = true ↔ Silent l := by
  simp [isSilent, Silent]

lemma legible_iff : Legible l ↔ Silent l ∨ ∃ e, Means l e := by
  constructor
  · rintro (hsilent | ⟨left, right, harrow, hsymbol⟩)
    · exact .inl hsilent
    · exact or_iff_not_imp_left.mpr fun hloud => ⟨_, hloud, ⟨left, right, harrow, rfl⟩, hsymbol⟩
  · rintro (hsilent | ⟨e, -, ⟨left, right, harrow, rfl⟩, hsymbol⟩)
    · exact .inl hsilent
    · exact .inr ⟨left, right, harrow, hsymbol⟩

/-- The outer ends of the sides have no blanks, for they are those of a trimmed text. -/
lemma FirstArrow.trim_sides (h : FirstArrow (trim l) left right) :
    trimRight left = trim left ∧ trimLeft right = trim right := by
  have htrimmed := trimmed_trim l
  constructor
  · have hhead : trimLeft left = left := by
      refine trimLeft_eq_self fun c hc => htrimmed.head c ?_
      rw [h.eq, List.head?_append, hc]
      rfl
    rw [trim, hhead]
  · symm
    refine trimRight_eq_self fun c hc => htrimmed.last c ?_
    obtain ⟨b, hb⟩ := trimLeft_isSuffix right
    have hlast : right.getLast? = some c := by
      rw [← hb, List.getLast?_append, hc]
      rfl
    simp [h.eq, List.getLast?_append, List.getLast?_cons, hlast]

lemma parseRule_of_symbol (line : ℕ) {c : Symbol} (h : FirstArrow (trim l) left right)
    (hc : trim left = [c]) : parseRule line l (trim l) = .ok (c, trim right) := by
  obtain ⟨hleft, hright⟩ := h.trim_sides
  simp only [parseRule, splitArrow_eq_some_iff.mpr h, hleft, hright, hc]

lemma parseRule_of_fault {line : ℕ} (h : Fault line l f) (hl : ¬ Legible l) :
    parseRule line l (trim l) = .error f := by
  cases h with
  | missingArrow harrow => simp only [parseRule, splitArrow_eq_none_iff.mpr harrow]
  | @notOneSymbol left right harrow =>
    have hmany : ∀ c, trim left ≠ [c] :=
      fun c hc => hl (.inr ⟨left, right, harrow, by rw [hc, List.length_singleton]⟩)
    simp only [parseRule, splitArrow_eq_some_iff.mpr harrow, harrow.trim_sides.1]

section Line

variable (line : ℕ) (t : RuleTable)

lemma parseLine_of_silent (h : Silent l) : parseLine line l t = .ok t := by
  simp only [parseLine, isSilent_iff.mpr h, if_true]

lemma parseLine_of_means (h : Means l e) : parseLine line l t = .ok (t.insert e.1 e.2) := by
  obtain ⟨hloud, ⟨left, right, harrow, rfl⟩, hsymbol⟩ := h
  obtain ⟨c, hc⟩ := List.length_eq_one_iff.mp hsymbol
  simp only [parseLine, mt isSilent_iff.mp hloud, parseRule_of_symbol line harrow hc]
  rw [show trim left = [c] from hc]
  rfl

lemma parseLine_of_fault {line : ℕ} (h : Fault line l f) (hl : ¬ Legible l) :
    parseLine line l t = .error f := by
  have hloud : ¬ Silent l := fun hsilent => hl (.inl hsilent)
  simp only [parseLine, mt isSilent_iff.mp hloud, parseRule_of_fault h hl]
  rfl

end Line

lemma exists_fault (line : ℕ) (l : Text) : ∃ f, Fault line l f := by
  cases hsplit : splitArrow (trim l) with
  | none => exact ⟨_, .missingArrow (splitArrow_eq_none_iff.mp hsplit)⟩
  | some p => exact ⟨_, .notOneSymbol (splitArrow_eq_some_iff.mp hsplit)⟩

namespace Told

lemma legible (h : Told ls es) : ∀ l ∈ ls, Legible l := by
  induction h with
  | nil => exact fun l hl => absurd hl List.not_mem_nil
  | silent hl _ ih => exact List.forall_mem_cons.mpr ⟨.inl hl, ih⟩
  | entry hl _ ih => exact List.forall_mem_cons.mpr ⟨legible_iff.mpr (.inr ⟨_, hl⟩), ih⟩

end Told

lemma exists_told (h : ∀ l ∈ ls, Legible l) : ∃ es, Told ls es := by
  induction ls with
  | nil => exact ⟨[], .nil⟩
  | cons l ls ih =>
    obtain ⟨hl, hls⟩ := List.forall_mem_cons.mp h
    obtain ⟨es, hes⟩ := ih hls
    rcases legible_iff.mp hl with hsilent | ⟨e, he⟩
    · exact ⟨es, .silent hsilent hes⟩
    · exact ⟨e :: es, .entry he hes⟩

lemma Told.parseLines_eq (h : Told ls es) (line : ℕ) (t : RuleTable) :
    parseLines line t ls = .ok (t.insertAll es) := by
  induction h generalizing line t with
  | nil => rfl
  | silent hl _ ih => simp only [parseLines, parseLine_of_silent line t hl, ih]
  | entry hl _ ih =>
    simp only [parseLines, parseLine_of_means line t hl, ih]
    rfl

lemma parseLines_of_fault {front back : List Text} (hfront : ∀ l ∈ front, Legible l)
    (hl : ¬ Legible l) (line : ℕ) (hfault : Fault (line + front.length) l f) (t : RuleTable) :
    parseLines line t (front ++ l :: back) = .error f := by
  induction front generalizing line t with
  | nil =>
    have hline : parseLine line l t = .error f := parseLine_of_fault t hfault hl
    simp only [List.nil_append, parseLines, hline]
  | cons l' front ih =>
    obtain ⟨hl', hfront⟩ := List.forall_mem_cons.mp hfront
    have hline : line + (l' :: front).length = line + 1 + front.length := by
      rw [List.length_cons, Nat.add_assoc, Nat.add_comm 1]
    rw [hline] at hfault
    rcases legible_iff.mp hl' with hsilent | ⟨e, he⟩
    · simp only [List.cons_append, parseLines, parseLine_of_silent line t hsilent,
        ih hfront (line + 1) hfault]
    · simp only [List.cons_append, parseLines, parseLine_of_means line t he,
        ih hfront (line + 1) hfault]

lemma exists_first_illegible (h : ¬ ∀ l ∈ ls, Legible l) :
    ∃ front l back, ls = front ++ l :: back ∧ (∀ l' ∈ front, Legible l') ∧ ¬ Legible l := by
  induction ls with
  | nil => exact absurd (fun _ hl => absurd hl List.not_mem_nil) h
  | cons l ls ih =>
    by_cases hl : Legible l
    · obtain ⟨front, l', back, rfl, hfront, hl'⟩ :=
        ih fun hls => h (List.forall_mem_cons.mpr ⟨hl, hls⟩)
      exact ⟨l :: front, l', back, rfl, List.forall_mem_cons.mpr ⟨hl, hfront⟩, hl'⟩
    · exact ⟨[], l, ls, rfl, fun _ hl' => absurd hl' List.not_mem_nil, hl⟩

lemma parse_of_told {s : Text} (h : Told (lines s) es) : parse s = .ok (.ofList es) :=
  h.parseLines_eq 1 .empty

lemma parse_of_fault {s : Text} {front back : List Text}
    (hs : lines s = front ++ l :: back) (hfront : ∀ l ∈ front, Legible l) (hl : ¬ Legible l)
    (hfault : Fault (front.length + 1) l f) : parse s = .error f := by
  rw [parse, hs]
  rw [Nat.add_comm] at hfault
  exact parseLines_of_fault hfront hl 1 hfault .empty

lemma parse_eq_ok_iff {s : Text} :
    parse s = .ok t ↔ ∃ es, Told (lines s) es ∧ t = .ofList es := by
  constructor
  · intro h
    by_cases hs : ∀ l ∈ lines s, Legible l
    · obtain ⟨es, hes⟩ := exists_told hs
      exact ⟨es, hes, Except.ok.inj (h.symm.trans (parse_of_told hes))⟩
    · obtain ⟨front, l, back, hlines, hfront, hl⟩ := exists_first_illegible hs
      obtain ⟨f, hf⟩ := exists_fault (front.length + 1) l
      rw [parse_of_fault hlines hfront hl hf] at h
      cases h
  · rintro ⟨es, hes, rfl⟩
    exact parse_of_told hes

lemma Fault.message_eq {line : ℕ} (h : Fault line l f) :
    ¬ (['-', '>'] : Text) <:+: trim l ∧
        f.message = s!"rule line {line}: missing '->' in " ++ .ofList (quoted l) ∨
      ∃ left right, FirstArrow (trim l) left right ∧
        f.message = s!"rule line {line}: left side must be a single symbol, got " ++
          .ofList (quoted (trim left)) := by
  cases h with
  | missingArrow harrow => exact .inl ⟨harrow, rfl⟩
  | notOneSymbol harrow => exact .inr ⟨_, _, harrow, rfl⟩

/-- A rule text is read just if each of its lines can be read. The table then has the keys of its lines
as they came first, and their replacements as they came last; of the lines that cannot be read, the
first one is reported. -/
theorem parse_lineGrammar (s : Text) :
    ((∃ t, parse s = .ok t) ↔ ∀ l ∈ lines s, Legible l) ∧
    (∀ t, parse s = .ok t → ∃ es, Told (lines s) es ∧
      t.keys = (es.map Prod.fst).eraseDups ∧ ∀ k, t.get? k = es.reverse.lookup k) ∧
    ∀ f, parse s = .error f → ∃ front l back,
      lines s = front ++ l :: back ∧ (∀ l' ∈ front, Legible l') ∧ ¬ Legible l ∧
      (¬ (['-', '>'] : Text) <:+: trim l ∧
          f.message = s!"rule line {front.length + 1}: missing '->' in " ++ .ofList (quoted l) ∨
        ∃ left right, FirstArrow (trim l) left right ∧
          f.message = s!"rule line {front.length + 1}: left side must be a single symbol, got " ++
            .ofList (quoted (trim left))) := by
  refine ⟨⟨?read, ?legible⟩, ?table, ?fault⟩
  case read =>
    rintro ⟨t, ht⟩
    obtain ⟨es, hes, -⟩ := parse_eq_ok_iff.mp ht
    exact hes.legible
  case legible =>
    intro hs
    obtain ⟨es, hes⟩ := exists_told hs
    exact ⟨_, parse_of_told hes⟩
  case table =>
    intro t ht
    obtain ⟨es, hes, rfl⟩ := parse_eq_ok_iff.mp ht
    exact ⟨es, hes, RuleTable.keys_ofList es, RuleTable.get?_ofList es⟩
  case fault =>
    intro f hf
    have hs : ¬ ∀ l ∈ lines s, Legible l := by
      intro hs
      obtain ⟨es, hes⟩ := exists_told hs
      rw [parse_of_told hes] at hf
      cases hf
    obtain ⟨front, l, back, hlines, hfront, hl⟩ := exists_first_illegible hs
    obtain ⟨f', hf'⟩ := exists_fault (front.length + 1) l
    obtain rfl := Except.error.inj (hf.symm.trans (parse_of_fault hlines hfront hl hf'))
    exact ⟨front, l, back, hlines, hfront, hl, hf'.message_eq⟩

theorem parse_lineGrammar_twoArrows :
    (∃ t, parse "-->x\r\n# f\n \t\n>->->\x0b-\t->  y " = .ok t ∧
      t.entries = ([(['-'], ['y']), (['>'], ['-', '>'])] : List (Word × Word)) ∧
      ∃ es, Told (lines "-->x\r\n# f\n \t\n>->->\x0b-\t->  y ") es ∧
        t.keys = (es.map Prod.fst).eraseDups ∧ ∀ k, t.get? k = es.reverse.lookup k) ∧
    ∃ f, parse "f -> ff\n\nff -> f" = .error f ∧ f = .notOneSymbol 3 ['f', 'f'] ∧
      ∃ front l back, lines "f -> ff\n\nff -> f" = front ++ l :: back ∧
        (∀ l' ∈ front, Legible l') ∧ ¬ Legible l ∧
        (¬ (['-', '>'] : Text) <:+: trim l ∧
            f.message = s!"rule line {front.length + 1}: missing '->' in " ++ .ofList (quoted l) ∨
          ∃ left right, FirstArrow (trim l) left right ∧
            f.message = s!"rule line {front.length + 1}: left side must be a single symbol, got " ++
              .ofList (quoted (trim left))) := by
  have hread : parse "-->x\r\n# f\n \t\n>->->\x0b-\t->  y " =
      .ok (.ofList [(['-'], ['x']), (['>'], ['-', '>']), (['-'], ['y'])]) := rfl
  have hfault : parse "f -> ff\n\nff -> f" = .error (.notOneSymbol 3 ['f', 'f']) := rfl
  exact ⟨⟨_, hread, rfl, (parse_lineGrammar _).2.1 _ hread⟩,
    ⟨_, hfault, rfl, (parse_lineGrammar _).2.2 _ hfault⟩⟩

section Joined

variable {ms : List Text} {fs : List (Word × Word)}

lemma Told.append (h : Told ls es) (h' : Told ms fs) : Told (ls ++ ms) (es ++ fs) := by
  induction h with
  | nil => exact h'
  | silent hl _ ih => exact .silent hl ih
  | entry hl _ ih => exact .entry hl ih

lemma told_append_iff :
    Told (ls ++ ms) es ↔ ∃ es₁ es₂, Told ls es₁ ∧ Told ms es₂ ∧ es = es₁ ++ es₂ := by
  refine ⟨fun h => ?_, fun ⟨_, _, h₁, h₂, hes⟩ => hes ▸ h₁.append h₂⟩
  induction ls generalizing es with
  | nil => exact ⟨[], es, .nil, h, rfl⟩
  | cons l ls ih =>
    cases h with
    | silent hl h =>
      obtain ⟨es₁, es₂, h₁, h₂, rfl⟩ := ih h
      exact ⟨es₁, es₂, .silent hl h₁, h₂, rfl⟩
    | @entry _ _ e _ hl h =>
      obtain ⟨es₁, es₂, h₁, h₂, rfl⟩ := ih h
      exact ⟨e :: es₁, es₂, .entry hl h₁, h₂, rfl⟩

lemma told_silent_iff (hls : ∀ l ∈ ls, Silent l) : Told ls es ↔ es = [] := by
  induction ls with
  | nil =>
    refine ⟨fun h => ?_, fun h => h ▸ .nil⟩
    cases h
    rfl
  | cons l ls ih =>
    obtain ⟨hl, hls⟩ := List.forall_mem_cons.mp hls
    rw [← ih hls]
    refine ⟨fun h => ?_, .silent hl⟩
    cases h with
    | silent _ h => exact h
    | entry hl' => exact absurd hl hl'.loud

lemma told_lineFeed_iff (s u : Text) :
    Told (lines (s ++ .char '\n' :: u)) es ↔
      ∃ es₁ es₂, Told (lines s) es₁ ∧ Told (lines u) es₂ ∧ es = es₁ ++ es₂ := by
  obtain ⟨ms, hms, hlines⟩ := exists_lines_append_cons (f := .char '\n') rfl s u
  have hsilent : ∀ l ∈ ms, Silent l := fun l hl => .inl (by rw [hms l hl]; rfl)
  simp [hlines, told_append_iff, told_silent_iff hsilent]

lemma told_joinLines_iff (ss : List Text) :
    Told (lines (joinLines ss)) es ↔
      ∃ ess, List.Forall₂ (fun s es => Told (lines s) es) ss ess ∧ es = ess.flatten := by
  induction ss generalizing es with
  | nil => simp [joinLines, lines_nil, told_silent_iff]
  | cons s ss ih =>
    cases ss with
    | nil =>
      rw [joinLines, List.intercalate_singleton]
      constructor
      · intro h
        exact ⟨[es], .cons h .nil, List.flatten_singleton.symm⟩
      · rintro ⟨ess, hess, rfl⟩
        cases hess with
        | cons h hnil =>
          cases hnil
          rwa [List.flatten_singleton]
    | cons s' ss =>
      rw [joinLines_cons_cons, told_lineFeed_iff]
      constructor
      · rintro ⟨es₁, es₂, h₁, h₂, rfl⟩
        obtain ⟨ess, hess, rfl⟩ := ih.mp h₂
        exact ⟨es₁ :: ess, .cons h₁ hess, List.flatten_cons.symm⟩
      · rintro ⟨ess, hess, rfl⟩
        cases hess with
        | cons h₁ hess => exact ⟨_, _, h₁, ih.mpr ⟨_, hess, rfl⟩, List.flatten_cons⟩

lemma forall₂_parse_iff {ss : List Text} {us : List RuleTable} :
    List.Forall₂ (fun s u => parse s = .ok u) ss us ↔
      ∃ ess, List.Forall₂ (fun s es => Told (lines s) es) ss ess ∧ us = ess.map .ofList := by
  constructor
  · intro h
    induction h with
    | nil => exact ⟨[], .nil, rfl⟩
    | cons hs _ ih =>
      obtain ⟨es, hes, rfl⟩ := parse_eq_ok_iff.mp hs
      obtain ⟨ess, hess, rfl⟩ := ih
      exact ⟨es :: ess, .cons hes hess, rfl⟩
  · rintro ⟨ess, hess, rfl⟩
    exact List.forall₂_map_right_iff.mpr (hess.imp fun _ _ => parse_of_told)

/-- Joined texts are read as the tables of the texts, one after the other. -/
lemma parse_joinLines_iff {ss : List Text} :
    parse (joinLines ss) = .ok t ↔
      ∃ us, List.Forall₂ (fun s u => parse s = .ok u) ss us ∧ t = .merge us := by
  simp only [forall₂_parse_iff, parse_eq_ok_iff (s := joinLines ss), told_joinLines_iff]
  constructor
  · rintro ⟨_, ⟨ess, hess, rfl⟩, rfl⟩
    exact ⟨_, ⟨ess, hess, rfl⟩, (RuleTable.merge_map_ofList ess).symm⟩
  · rintro ⟨_, ⟨ess, hess, rfl⟩, rfl⟩
    exact ⟨_, ⟨ess, hess, rfl⟩, RuleTable.merge_map_ofList ess⟩

end Joined

end Lindenmayer.Rules
