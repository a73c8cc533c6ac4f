import Lindenmayer.Rules.Table
import Mathlib.Data.List.Nodup

/-! The entries of a table after insertions. New keys come last, so that a table is made again from
its own entries, and a table made of any entries has each key where it first came, with what came last
for it. -/

namespace Lindenmayer

lemma mem_insertEntry {k v : Word} {e : Word × Word} {es : List (Word × Word)}
    (h : e ∈ insertEntry k v es) : e = (k, v) ∨ e ∈ es := by
  induction es with
  | nil => exact .inl (List.mem_singleton.mp h)
  | cons e' es ih =>
    by_cases hk : e'.1 = k
    · rw [insertEntry, if_pos hk] at h
      exact (List.mem_cons.mp h).imp_right (List.mem_cons_of_mem e')
    · rw [insertEntry, if_neg hk] at h
      rcases List.mem_cons.mp h with rfl | h
      · exact .inr List.mem_cons_self
      · exact (ih h).imp_right (List.mem_cons_of_mem e')

lemma insertEntry_of_notMem {k : Word} {es : List (Word × Word)} (h : k ∉ es.map Prod.fst)
    (v : Word) : insertEntry k v es = es ++ [(k, v)] := by
  induction es with
  | nil => rfl
  | cons e es ih =>
    rw [List.map_cons, List.mem_cons, not_or] at h
    rw [insertEntry, if_neg (Ne.symm h.1), ih h.2, List.cons_append]

section FirstPlaces

variable {α : Type} [BEq α]

lemma eraseDups_induction {motive : List α → Prop} (nil : motive [])
    (cons : ∀ a l, motive (l.filter fun b => !b == a) → motive (a :: l)) (l : List α) : motive l := by
  induction hn : l.length using Nat.strongRecOn generalizing l with
  | ind n ih =>
    cases l with
    | nil => exact nil
    | cons a l =>
      refine cons a l (ih _ ?_ _ rfl)
      rw [← hn]
      exact Nat.lt_succ_of_le (List.length_filter_le _ l)

variable [LawfulBEq α]

lemma eraseDups_filter (p : α → Bool) (l : List α) :
    (l.filter p).eraseDups = l.eraseDups.filter p := by
  induction l using eraseDups_induction with
  | nil => rfl
  | cons a l ih =>
    rw [List.eraseDups_cons]
    by_cases ha : p a = true
    · rw [List.filter_cons_of_pos ha, List.filter_cons_of_pos ha, List.eraseDups_cons, ← ih,
        List.filter_filter, List.filter_filter]
      simp only [Bool.and_comm]
    · have hother : (l.filter fun b => !b == a).filter p = l.filter p := by
        rw [List.filter_filter]
        apply List.filter_congr
        intro b _
        by_cases hb : b = a
        · simp [hb, ha]
        · simp [hb]
      rw [List.filter_cons_of_neg ha, List.filter_cons_of_neg ha, ← ih, hother]

lemma nodup_eraseDups (l : List α) : l.eraseDups.Nodup := by
  induction l using eraseDups_induction with
  | nil => exact List.nodup_nil
  | cons a l ih =>
    rw [List.eraseDups_cons, List.nodup_cons]
    exact ⟨by simp, ih⟩

lemma eraseDups_of_nodup {l : List α} (h : l.Nodup) : l.eraseDups = l := by
  induction l with
  | nil => rfl
  | cons a l ih =>
    obtain ⟨ha, hl⟩ := List.nodup_cons.mp h
    have hfresh : (l.filter fun b => !b == a) = l := by
      refine List.filter_eq_self.mpr fun b hb => ?_
      simp only [Bool.not_eq_true', beq_eq_false_iff_ne]
      rintro rfl
      exact ha hb
    rw [List.eraseDups_cons, hfresh, ih hl]

lemma eraseDups_append_eraseDups (as bs : List α) :
    (as ++ bs.eraseDups).eraseDups = (as ++ bs).eraseDups := by
  rw [List.eraseDups_append, List.eraseDups_append, List.removeAll, List.removeAll,
    eraseDups_filter, eraseDups_filter, eraseDups_of_nodup (nodup_eraseDups bs)]

end FirstPlaces

namespace RuleTable

lemma get?_eq_some_iff {t : RuleTable} {k v : Word} : t.get? k = some v ↔ (k, v) ∈ t.entries := by
  obtain ⟨es, hes⟩ := t
  change es.lookup k = some v ↔ (k, v) ∈ es
  induction es with
  | nil => simp
  | cons e es ih =>
    obtain ⟨hfresh, hes⟩ := List.nodup_cons.mp hes
    rw [lookup_cons_entry, List.mem_cons]
    by_cases hk : k = e.1
    · subst hk
      have hnot : (e.1, v) ∉ es := fun h => hfresh (List.mem_map.mpr ⟨_, h, rfl⟩)
      simp [hnot, Prod.ext_iff, eq_comm]
    · have hne : (k, v) ≠ e := fun h => hk (congrArg Prod.fst h)
      rw [if_neg hk, ih hes]
      simp [hne]

lemma replacement_eq_or_mem (t : RuleTable) (c : Symbol) :
    t.replacement c = [c] ∨ ([c], t.replacement c) ∈ t.entries := by
  unfold replacement
  cases hget : t.get? [c] with
  | none => exact .inl rfl
  | some v => exact .inr (get?_eq_some_iff.mp hget)

def insertAll (t : RuleTable) (es : List (Word × Word)) : RuleTable :=
  es.foldl (fun t e => t.insert e.1 e.2) t

lemma insertAll_append (t : RuleTable) (es fs : List (Word × Word)) :
    t.insertAll (es ++ fs) = (t.insertAll es).insertAll fs := List.foldl_append

lemma entries_insertAll {t : RuleTable} {es : List (Word × Word)}
    (h : ((t.entries ++ es).map Prod.fst).Nodup) : (t.insertAll es).entries = t.entries ++ es := by
  induction es generalizing t with
  | nil => exact (List.append_nil t.entries).symm
  | cons e es ih =>
    have hfresh : e.1 ∉ t.entries.map Prod.fst := by
      intro hmem
      rw [List.map_append, List.map_cons, List.nodup_append] at h
      exact h.2.2 e.1 hmem e.1 List.mem_cons_self rfl
    have hinsert : (t.insert e.1 e.2).entries = t.entries ++ [e] :=
      insertEntry_of_notMem hfresh e.2
    have happend : (t.insert e.1 e.2).entries ++ es = t.entries ++ e :: es := by
      rw [hinsert, List.append_assoc, List.singleton_append]
    change ((t.insert e.1 e.2).insertAll es).entries = _
    rw [ih (by rw [happend]; exact h), happend]

@[simp] lemma ofList_entries (t : RuleTable) : ofList t.entries = t :=
  ext_entries (entries_insertAll t.nodup)

variable {t u : RuleTable}

lemma keys_insert (t : RuleTable) (k v : Word) :
    (t.insert k v).keys = if k ∈ t.keys then t.keys else t.keys ++ [k] :=
  keys_insertEntry k v t.entries

lemma keys_insertAll (t : RuleTable) (es : List (Word × Word)) :
    (t.insertAll es).keys = (t.keys ++ es.map Prod.fst).eraseDups := by
  induction es generalizing t with
  | nil =>
    rw [List.map_nil, List.append_nil]
    exact (eraseDups_of_nodup t.nodup).symm
  | cons e es ih =>
    have hstep : (t.insertAll (e :: es)).keys = ((t.insert e.1 e.2).insertAll es).keys := rfl
    rw [hstep, ih, keys_insert, List.map_cons]
    split
    · next hold => simp [List.eraseDups_append, List.cons_removeAll, hold]
    · rw [List.append_assoc, List.singleton_append]

lemma get?_insertAll (t : RuleTable) (es : List (Word × Word)) (k : Word) :
    (t.insertAll es).get? k = (es.reverse.lookup k).or (t.get? k) := by
  induction es generalizing t with
  | nil => rfl
  | cons e es ih =>
    have hstep : (t.insertAll (e :: es)).get? k = ((t.insert e.1 e.2).insertAll es).get? k := rfl
    rw [hstep, ih, get?_insert, List.reverse_cons, List.lookup_append, lookup_cons_entry]
    cases es.reverse.lookup k with
    | some v => rfl
    | none => split <;> rfl

lemma ext_keys (hkeys : t.keys = u.keys) (hget : ∀ k, t.get? k = u.get? k) : t = u := by
  have hentries : ∀ t : RuleTable, t.entries = t.keys.map fun k => (k, (t.get? k).getD []) := by
    intro t
    rw [keys, List.map_map]
    refine (List.map_id _).symm.trans (List.map_congr_left fun e he => ?_)
    have hmem : t.get? e.1 = some e.2 := get?_eq_some_iff.mpr he
    simp [hmem]
  apply ext_entries
  rw [hentries t, hentries u, hkeys]
  simp only [hget]

lemma keys_ofList (es : List (Word × Word)) : (ofList es).keys = (es.map Prod.fst).eraseDups :=
  keys_insertAll empty es

lemma get?_ofList (es : List (Word × Word)) (k : Word) :
    (ofList es).get? k = es.reverse.lookup k :=
  (get?_insertAll empty es k).trans Option.or_none

/-- Only the order of the keys and the last replacements of a list of entries matter to a table. -/
lemma insertAll_entries_ofList (t : RuleTable) (es : List (Word × Word)) :
    t.insertAll (ofList es).entries = t.insertAll es := by
  have hkeys : (ofList es).entries.map Prod.fst = (es.map Prod.fst).eraseDups := keys_ofList es
  apply ext_keys
  · rw [keys_insertAll, keys_insertAll, hkeys, eraseDups_append_eraseDups]
  · intro k
    rw [get?_insertAll, get?_insertAll, ← get?_ofList, ofList_entries, get?_ofList]

/-- The tables one after the other. -/
def merge (us : List RuleTable) : RuleTable := us.foldl (fun t u => t.insertAll u.entries) empty

lemma merge_eq_ofList (us : List RuleTable) : merge us = ofList (us.flatMap entries) := by
  have hfold : ∀ t : RuleTable,
      us.foldl (fun t u => t.insertAll u.entries) t = t.insertAll (us.flatMap entries) := by
    induction us with
    | nil => exact fun _ => rfl
    | cons u us ih =>
      intro t
      rw [List.foldl_cons, ih, List.flatMap_cons, insertAll_append]
  exact hfold empty

lemma merge_map_ofList (ess : List (List (Word × Word))) :
    merge (ess.map ofList) = ofList ess.flatten := by
  have hfold : ∀ t : RuleTable,
      (ess.map ofList).foldl (fun t u => t.insertAll u.entries) t = t.insertAll ess.flatten := by
    induction ess with
    | nil => exact fun _ => rfl
    | cons es ess ih =>
      intro t
      rw [List.map_cons, List.foldl_cons, ih, insertAll_entries_ofList, List.flatten_cons,
        insertAll_append]
  exact hfold empty

lemma keys_merge (us : List RuleTable) : (merge us).keys = (us.flatMap keys).eraseDups := by
  rw [merge_eq_ofList, keys_ofList, List.map_flatMap]
  rfl

lemma get?_merge (us : List RuleTable) (k : Word) :
    (merge us).get? k = us.reverse.findSome? (·.get? k) := by
  have hfold : ∀ t : RuleTable, (us.foldl (fun t u => t.insertAll u.entries) t).get? k =
      (us.reverse.findSome? (·.get? k)).or (t.get? k) := by
    induction us with
    | nil => exact fun _ => rfl
    | cons u us ih =>
      intro t
      have hlast : u.entries.reverse.lookup k = u.get? k := by rw [← get?_ofList, ofList_entries]
      rw [List.foldl_cons, ih, get?_insertAll, hlast, List.reverse_cons, List.findSome?_append,
        Option.or_assoc]
      simp
  exact (hfold empty).trans Option.or_none

end RuleTable

end Lindenmayer
