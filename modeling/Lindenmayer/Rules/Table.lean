import Lindenmayer.Text.Symbol

/-!
Tables of rewriting rules. A table keeps the order in which its keys came; a key that comes again
keeps its place and takes the new replacement.
-/

namespace Lindenmayer

abbrev Word := List Symbol

def insertEntry (k v : Word) : List (Word × Word) → List (Word × Word)
  | [] => [(k, v)]
  | e :: es => if e.1 = k then (k, v) :: es else e :: insertEntry k v es

theorem keys_insertEntry (k v : Word) (es : List (Word × Word)) :
    (insertEntry k v es).map Prod.fst =
      if k ∈ es.map Prod.fst then es.map Prod.fst else es.map Prod.fst ++ [k] := by
  induction es with
  | nil => simp [insertEntry]
  | cons e es ih =>
    by_cases h : e.1 = k
    · simp [insertEntry, h]
    · by_cases hk : k ∈ es.map Prod.fst
      · simp only [insertEntry, h, if_false, List.map_cons, ih, hk, if_true, List.mem_cons, or_true]
      · simp only [insertEntry, h, if_false, List.map_cons, ih, hk, List.mem_cons, Ne.symm h,
          or_self, List.cons_append]

structure RuleTable where
  entries : List (Word × Word)
  nodup : (entries.map Prod.fst).Nodup

namespace RuleTable

def empty : RuleTable := ⟨[], .nil⟩

def keys (t : RuleTable) : List Word := t.entries.map Prod.fst

def size (t : RuleTable) : Nat := t.entries.length

def get? (t : RuleTable) (k : Word) : Option Word := t.entries.lookup k

def insert (t : RuleTable) (k v : Word) : RuleTable where
  entries := insertEntry k v t.entries
  nodup := by
    rw [keys_insertEntry]
    split
    · exact t.nodup
    · next h => exact List.nodup_append.2 ⟨t.nodup, List.pairwise_singleton _ _,
        fun a ha b hb hab => h (List.mem_singleton.1 hb ▸ hab ▸ ha)⟩

/-- Later pairs win, at the place of the first with their key. -/
def ofList (es : List (Word × Word)) : RuleTable := es.foldl (fun t e => t.insert e.1 e.2) empty

def replacement (t : RuleTable) (c : Symbol) : Word := (t.get? [c]).getD [c]

theorem ext_entries {t u : RuleTable} (h : t.entries = u.entries) : t = u := by
  cases t; cases u; simpa using h

theorem lookup_cons_entry (k : Word) (e : Word × Word) (es : List (Word × Word)) :
    (e :: es).lookup k = if k = e.1 then some e.2 else es.lookup k := by
  obtain ⟨k', v⟩ := e
  by_cases h : k = k'
  · simp [h]
  · simp [List.lookup_cons, h, beq_eq_false_iff_ne.2 h]

theorem lookup_insertEntry (k v k' : Word) (es : List (Word × Word)) :
    (insertEntry k v es).lookup k' = if k' = k then some v else es.lookup k' := by
  induction es with
  | nil => exact lookup_cons_entry k' (k, v) []
  | cons e es ih =>
    by_cases h : e.1 = k
    · by_cases h' : k' = k <;> simp [insertEntry, lookup_cons_entry, h, h']
    · by_cases h' : k' = k
      · subst h'
        simp [insertEntry, lookup_cons_entry, h, Ne.symm h, ih]
      · simp [insertEntry, lookup_cons_entry, h, h', ih]

@[simp] theorem get?_empty (k : Word) : empty.get? k = none := rfl

@[simp] theorem get?_insert (t : RuleTable) (k v k' : Word) :
    (t.insert k v).get? k' = if k' = k then some v else t.get? k' :=
  lookup_insertEntry k v k' t.entries

def agree (t u : RuleTable) : Bool :=
  t.size == u.size && t.entries.all fun e => u.get? e.1 == some e.2

end RuleTable

end Lindenmayer
