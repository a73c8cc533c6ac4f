import Lindenmayer.Proofs.Rules.Entries
import Lindenmayer.Proofs.Text.Lines
import Lindenmayer.Proofs.Text.Trim
import Lindenmayer.Rules.Text

/-! Rule text read back. The tables that can be written are the tables that can be read: each key is
one symbol that begins no comment, and each replacement is a trimmed piece of one line. -/

namespace Lindenmayer

open Text

namespace Rules

structure Writable (e : Word × Word) : Prop where
  key : ∃ c, e.1 = [c] ∧ isBlank c = false ∧ c ≠ '#'
  inline : Inline e.2
  trimmed : Trimmed e.2

lemma eq_of_splitArrow {s left right : Text} (h : splitArrow s = some (left, right)) :
    s = left ++ .char '-' :: .char '>' :: right := by
  induction s using splitArrow.induct generalizing left with
  | case1 => cases h
  | case2 s =>
    cases h
    rfl
  | case3 c s harrow ih =>
    rw [splitArrow, Option.map_eq_some_iff] at h
    · obtain ⟨⟨l, r⟩, hs, hlr⟩ := h
      obtain ⟨rfl, rfl⟩ := Prod.mk.inj hlr
      rw [ih hs, List.cons_append]
    · exact harrow

lemma parseRule_writable {line : ℕ} {raw s : Text} {c : Symbol} {w : Word} (ht : Trimmed s)
    (hi : Inline s) (hsilent : isSilent s = false) (h : parseRule line raw s = .ok (c, w)) :
    Writable ([c], w) := by
  unfold parseRule at h
  split at h
  · cases h
  · next left right harrow =>
    split at h
    · next d hleft =>
      obtain ⟨rfl, rfl⟩ := Prod.mk.inj (Except.ok.inj h)
      have hs := eq_of_splitArrow harrow
      obtain ⟨rest, hrest⟩ := trimRight_isPrefix left
      rw [hleft] at hrest
      refine ⟨⟨d, rfl, ?blank, ?comment⟩, hi.of_subset ?subset, ?head, ?last⟩
      case blank => exact not_isBlank_last_trimRight (s := left) (by rw [hleft]; rfl)
      case comment =>
        rintro rfl
        rw [hs, ← hrest] at hsilent
        simp [isSilent] at hsilent
      case subset =>
        intro e he
        rw [hs]
        have hright := (trimLeft_isSuffix right).subset he
        simp [hright]
      case head => exact fun e he => not_isBlank_head_trimLeft he
      case last =>
        -- The replacement ends where the line ends.
        intro e he
        have hsuffix : trimLeft right <:+ s := by
          refine (trimLeft_isSuffix right).trans ⟨left ++ [.char '-', .char '>'], ?_⟩
          rw [hs, List.append_assoc]
          rfl
        obtain ⟨front, hfront⟩ := hsuffix
        apply ht.last e
        rw [← hfront, List.getLast?_append, he]
        rfl
    · cases h

end Rules

namespace RuleTable

def Writable (t : RuleTable) : Prop := ∀ e ∈ t.entries, Rules.Writable e

lemma Writable.insert {t : RuleTable} {c : Symbol} {w : Word} (ht : t.Writable)
    (he : Rules.Writable ([c], w)) : (t.insert [c] w).Writable := by
  intro e hmem
  rcases mem_insertEntry hmem with rfl | hmem
  · exact he
  · exact ht e hmem

end RuleTable

namespace Rules

lemma parseLine_writable {line : ℕ} {raw : Text} {t u : RuleTable} (hraw : Inline raw)
    (ht : t.Writable) (h : parseLine line raw t = .ok u) : u.Writable := by
  simp only [parseLine] at h
  split at h
  · obtain rfl := Except.ok.inj h
    exact ht
  · next hsilent =>
    split at h
    · next c w hrule =>
      obtain rfl := Except.ok.inj h
      exact ht.insert (parseRule_writable (trimmed_trim raw) (fun d hd => hraw d (mem_of_mem_trim hd))
        (Bool.eq_false_iff.mpr hsilent) hrule)
    · cases h

lemma parseLines_writable {line : ℕ} {ls : List Text} {t u : RuleTable}
    (hls : ∀ l ∈ ls, Inline l) (ht : t.Writable) (h : parseLines line t ls = .ok u) :
    u.Writable := by
  induction ls generalizing line t with
  | nil =>
    obtain rfl := Except.ok.inj h
    exact ht
  | cons l ls ih =>
    rw [parseLines] at h
    split at h
    · next t' hl =>
      exact ih (fun l' hl' => hls l' (List.mem_cons_of_mem l hl'))
        (parseLine_writable (hls l List.mem_cons_self) ht hl) h
    · cases h

lemma parse_writable {s : Text} {t : RuleTable} (h : parse s = .ok t) : t.Writable :=
  parseLines_writable (fun _ => inline_of_mem_lines) (fun _ he => absurd he List.not_mem_nil) h

lemma splitArrow_symbol (c : Symbol) (s : Text) :
    splitArrow (c :: ' ' :: .char '-' :: .char '>' :: s) = some ([c, ' '], s) := by
  -- The blank keeps a symbol that is half an arrow from being taken for one.
  by_cases hc : c = '-' <;> simp [splitArrow, hc]

lemma parseRule_symbol (line : ℕ) (raw : Text) {c : Symbol} (hc : isBlank c = false)
    (s : Text) :
    parseRule line raw (c :: ' ' :: .char '-' :: .char '>' :: s) = .ok (c, trimLeft s) := by
  have htrim : trimRight [c, ' '] = [c] := by
    simp [trimRight, hc, show isBlank (.char ' ' : Symbol) = true from rfl]
  rw [parseRule, splitArrow_symbol]
  simp only [htrim]

lemma trim_formatEntry {c : Symbol} {w : Word} (hc : isBlank c = false) (hw : Trimmed w) :
    trim (formatEntry ([c], w)) =
      c :: ' ' :: .char '-' :: .char '>' :: (if w = [] then [] else ' ' :: w) := by
  have hleft : trimLeft (formatEntry ([c], w)) = formatEntry ([c], w) :=
    trimLeft_eq_self fun d hd => by
      obtain rfl : c = d := Option.some.inj hd
      exact hc
  rw [trim, hleft]
  by_cases hnil : w = []
  · subst hnil
    simp [formatEntry, arrow, trimRight, show isBlank (.char ' ' : Symbol) = true from rfl,
      show isBlank (.char '>' : Symbol) = false from rfl]
  · rw [if_neg hnil]
    refine trimRight_eq_self fun d hd => hw.last d ?_
    have hsplit : formatEntry ([c], w) = [c, ' ', '-', '>', ' '] ++ w := rfl
    rwa [hsplit, List.getLast?_append_of_ne_nil _ hnil] at hd

lemma parseLine_formatEntry (line : ℕ) (t : RuleTable) {e : Word × Word} (he : Writable e) :
    parseLine line (formatEntry e) t = .ok (t.insert e.1 e.2) := by
  obtain ⟨⟨c, hkey, hblank, hcomment⟩, -, htrimmed⟩ := he
  obtain ⟨k, w⟩ := e
  subst hkey
  have hvalue : trimLeft (if w = [] then [] else ' ' :: w) = w := by
    by_cases hnil : w = []
    · rw [if_pos hnil, hnil]
      rfl
    · rw [if_neg hnil, trimLeft, List.dropWhile_cons_of_pos rfl]
      exact trimLeft_eq_self htrimmed.head
  have hsilent :
      isSilent (c :: ' ' :: .char '-' :: .char '>' :: (if w = [] then [] else ' ' :: w)) = false := by
    simp [isSilent, hcomment]
  simp only [parseLine, trim_formatEntry hblank htrimmed, hsilent, Bool.false_eq_true, if_false,
    parseRule_symbol line _ hblank, hvalue]

lemma parseLines_formatEntry (line : ℕ) (t : RuleTable) {es : List (Word × Word)}
    (hes : ∀ e ∈ es, Writable e) :
    parseLines line t (es.map formatEntry) = .ok (t.insertAll es) := by
  induction es generalizing line t with
  | nil => rfl
  | cons e es ih =>
    rw [List.map_cons, parseLines, parseLine_formatEntry line t (hes e List.mem_cons_self)]
    exact ih (line + 1) _ fun e' he' => hes e' (List.mem_cons_of_mem e he')

lemma formatEntry_inline {e : Word × Word} (he : Writable e) :
    formatEntry e ≠ [] ∧ Inline (formatEntry e) := by
  obtain ⟨⟨c, hkey, hblank, -⟩, hinline, -⟩ := he
  obtain ⟨k, w⟩ := e
  subst hkey
  have hkey : Inline [c] := by
    intro d hd
    obtain rfl := List.mem_singleton.mp hd
    exact Bool.eq_false_iff.mpr fun hd' => by simp [isBlank_of_isBreak hd'] at hblank
  have harrow : Inline arrow := by
    unfold Inline
    decide
  exact ⟨List.cons_ne_nil _ _, hkey.append (harrow.append hinline)⟩

lemma lines_format_of_writable {t : RuleTable} (ht : t.Writable) :
    lines (format t) = t.entries.map formatEntry := by
  apply lines_joinLines
  intro l hl
  obtain ⟨e, he, rfl⟩ := List.mem_map.mp hl
  exact formatEntry_inline (ht e he)

lemma parse_format_of_writable {t : RuleTable} (ht : t.Writable) : parse (format t) = .ok t := by
  rw [parse, lines_format_of_writable ht, parseLines_formatEntry 1 .empty ht]
  exact congrArg Except.ok t.ofList_entries

/-- A table comes back from its text, in its order, exactly if it is writable; what is read from a
text is always writable. -/
theorem parse_format :
    (∀ t, parse (format t) = .ok t ↔ t.Writable) ∧
    ∀ s t, parse s = .ok t → t.Writable ∧ parse (format t) = .ok t :=
  ⟨fun _ => ⟨parse_writable, parse_format_of_writable⟩,
    fun _ _ h => ⟨parse_writable h, parse_format_of_writable (parse_writable h)⟩⟩

theorem parse_format_arrows :
    ∃ t, parse ['-', '-', '>', 'x', '\r', '\n', '#', '\n', '>', '-', '>', '-', '>', '\n', '-',
        ' ', '-', '>'] = .ok t ∧
      t.entries = ([(['-'], []), (['>'], ['-', '>'])] : List (Word × Word)) ∧ t.Writable ∧
      parse (format t) = .ok t := by
  have hparse : parse ['-', '-', '>', 'x', '\r', '\n', '#', '\n', '>', '-', '>', '-', '>', '\n',
      '-', ' ', '-', '>'] = .ok (.ofList [(['-'], []), (['>'], ['-', '>'])]) := rfl
  obtain ⟨hwritable, hformat⟩ := parse_format.2 _ _ hparse
  exact ⟨_, hparse, rfl, hwritable, hformat⟩

end Rules

end Lindenmayer
