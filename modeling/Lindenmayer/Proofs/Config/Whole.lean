import Lindenmayer.Proofs.Config.Meaning
import Lindenmayer.Proofs.Grammar.Reachable
import Lindenmayer.Proofs.Rules.Reading
import Lindenmayer.Proofs.Text.Whole

/-! Configurations whose texts have no half of a pair in them. Reading makes no half: where one is in a
configuration, it was in the value that was read. -/

namespace Lindenmayer

open Text

lemma exists_of_mem_mapM {α β : Type} {f : α → Option β} {xs : List α} {ys : List β} {y : β}
    (h : xs.mapM f = some ys) (hy : y ∈ ys) : ∃ x ∈ xs, f x = some y := by
  induction xs generalizing ys with
  | nil =>
    obtain rfl := Option.some.inj h
    exact absurd hy List.not_mem_nil
  | cons x xs ih =>
    rw [List.mapM_cons] at h
    obtain ⟨z, hz, h⟩ := Option.bind_eq_some_iff.mp h
    obtain ⟨zs, hzs, h⟩ := Option.bind_eq_some_iff.mp h
    obtain rfl := Option.some.inj h
    rcases List.mem_cons.mp hy with rfl | hy
    · exact ⟨x, List.mem_cons_self, hz⟩
    · obtain ⟨x', hx', hy⟩ := ih hzs hy
      exact ⟨x', List.mem_cons_of_mem x hx', hy⟩

namespace RuleTable

def IsWhole (t : RuleTable) : Prop := ∀ e ∈ t.entries, isWhole e.1 = true ∧ isWhole e.2 = true

lemma IsWhole.insertAll {t : RuleTable} {es : List (Word × Word)} (ht : t.IsWhole)
    (hes : ∀ e ∈ es, isWhole e.1 = true ∧ isWhole e.2 = true) : (t.insertAll es).IsWhole := by
  induction es generalizing t with
  | nil => exact ht
  | cons e es ih =>
    obtain ⟨he, hes⟩ := List.forall_mem_cons.mp hes
    refine ih (fun e' he' => ?_) hes
    rcases mem_insertEntry he' with rfl | he'
    · exact he
    · exact ht e' he'

lemma isWhole_ofList {es : List (Word × Word)}
    (hes : ∀ e ∈ es, isWhole e.1 = true ∧ isWhole e.2 = true) : (ofList es).IsWhole :=
  IsWhole.insertAll (t := empty) (fun _ he => absurd he List.not_mem_nil) hes

lemma all_isWhole_lines_format {t : RuleTable} :
    (lines (Rules.format t)).all isWhole = true ↔ t.IsWhole := by
  have harrow : isWhole Rules.arrow = true := rfl
  rw [all_isWhole_lines, Rules.format, isWhole_joinLines, List.all_eq_true, List.forall_mem_map]
  simp only [Rules.formatEntry, isWhole_append, harrow, Bool.true_and, Bool.and_eq_true, IsWhole]

end RuleTable

namespace Rules

lemma Means.whole {l : Text} {e : Word × Word} (h : Means l e) (hl : isWhole l = true) :
    isWhole e.1 = true ∧ isWhole e.2 = true := by
  obtain ⟨left, right, harrow, rfl⟩ := h.sides
  have htrim : isWhole (trim l) = true := isWhole_of_subset hl fun _ => mem_of_mem_trim
  rw [harrow.eq, isWhole_append, Bool.and_eq_true] at htrim
  have hright : isWhole right = true := by
    refine isWhole_of_subset htrim.2 fun c hc => ?_
    exact List.mem_cons_of_mem _ (List.mem_cons_of_mem _ hc)
  exact ⟨isWhole_of_subset htrim.1 fun _ => mem_of_mem_trim,
    isWhole_of_subset hright fun _ => mem_of_mem_trim⟩

lemma Told.whole {ls : List Text} {es : List (Word × Word)} (h : Told ls es)
    (hls : ∀ l ∈ ls, isWhole l = true) : ∀ e ∈ es, isWhole e.1 = true ∧ isWhole e.2 = true := by
  induction h with
  | nil => exact fun _ he => absurd he List.not_mem_nil
  | silent _ _ ih => exact ih (List.forall_mem_cons.mp hls).2
  | entry hl _ ih =>
    obtain ⟨hwhole, hls⟩ := List.forall_mem_cons.mp hls
    exact List.forall_mem_cons.mpr ⟨hl.whole hwhole, ih hls⟩

lemma isWhole_of_parse {s : Text} {t : RuleTable} (hs : isWhole s = true) (h : parse s = .ok t) :
    t.IsWhole := by
  obtain ⟨es, hes, rfl⟩ := parse_eq_ok_iff.mp h
  rw [← all_isWhole_lines] at hs
  exact RuleTable.isWhole_ofList (hes.whole (List.all_eq_true.mp hs))

end Rules

namespace Json

/-- Somewhere in the value there is a half of a pair. -/
inductive HasHalf : Json → Prop
  | string {s} : isWhole s = false → HasHalf (.string s)
  | item {vs v} : v ∈ vs → HasHalf v → HasHalf (.array vs)
  | key {ms k v} : (k, v) ∈ ms → isWhole k = false → HasHalf (.object ms)
  | member {ms k v} : (k, v) ∈ ms → HasHalf v → HasHalf (.object ms)

lemma hasHalf_string_iff {s : Text} : (string s).HasHalf ↔ isWhole s = false :=
  ⟨fun h => by cases h; assumption, .string⟩

lemma hasHalf_array_iff {vs : List Json} : (array vs).HasHalf ↔ ∃ v ∈ vs, v.HasHalf := by
  constructor
  · intro h
    cases h with
    | item hv h => exact ⟨_, hv, h⟩
  · rintro ⟨v, hv, h⟩
    exact .item hv h

lemma hasHalf_object_iff {ms : List (Text × Json)} :
    (object ms).HasHalf ↔ ∃ m ∈ ms, isWhole m.1 = false ∨ m.2.HasHalf := by
  constructor
  · intro h
    cases h with
    | key hm h => exact ⟨_, hm, .inl h⟩
    | member hm h => exact ⟨_, hm, .inr h⟩
  · rintro ⟨m, hm, h | h⟩
    · exact .key hm h
    · exact .member hm h

variable {v x : Json}

lemma not_hasHalf_of_at? (h : ¬ v.HasHalf) {path : List String} (hx : v.at? path = some x) :
    ¬ x.HasHalf := by
  induction path generalizing v with
  | nil => exact Option.some.inj hx ▸ h
  | cons k ks ih =>
    cases v with
    | object ms =>
      obtain ⟨y, hy, hx⟩ := Option.bind_eq_some_iff.mp hx
      obtain ⟨before, after, hsplit, -⟩ := List.lookup_eq_some_iff.mp hy
      have hmem : (ofString k, y) ∈ ms := hsplit ▸ List.mem_append_right before List.mem_cons_self
      exact ih (fun hhalf => h (.member hmem hhalf)) hx
    | _ => cases hx

lemma isWhole_of_text? (h : ¬ v.HasHalf) {s : Text} (hs : v.text? = some s) : isWhole s = true := by
  cases v with
  | string s' =>
    obtain rfl := Option.some.inj hs
    exact Bool.of_not_eq_false fun hhalf => h (.string hhalf)
  | _ => cases hs

lemma isWhole_of_background? (h : ¬ v.HasHalf) {b : Option Text} (hb : v.background? = some b) :
    ∀ s ∈ b, isWhole s = true := by
  cases v with
  | null =>
    obtain rfl := Option.some.inj hb
    exact fun _ hs => absurd hs (Option.not_mem_none _)
  | string s' =>
    obtain rfl := Option.some.inj hb
    exact fun s hs => isWhole_of_text? h hs
  | _ => cases hb

lemma isWhole_of_rules? (h : ¬ v.HasHalf) {t : RuleTable} (ht : v.rules? = some t) : t.IsWhole := by
  cases v with
  | string s =>
    have hs : isWhole s = true := isWhole_of_text? h rfl
    exact Rules.isWhole_of_parse hs (Except.toOption_eq_some_iff.mp ht)
  | array vs =>
    obtain ⟨ls, hls, ht⟩ := Option.bind_eq_some_iff.mp ht
    refine Rules.isWhole_of_parse ?_ (Except.toOption_eq_some_iff.mp ht)
    rw [isWhole_joinLines, List.all_eq_true]
    intro l hl
    obtain ⟨x, hx, hl⟩ := exists_of_mem_mapM hls hl
    exact isWhole_of_text? (fun hhalf => h (.item hx hhalf)) hl
  | object ms =>
    obtain ⟨es, hes, rfl⟩ := Option.map_eq_some_iff.mp ht
    refine RuleTable.isWhole_ofList fun e he => ?_
    obtain ⟨⟨k, x⟩, hx, he⟩ := exists_of_mem_mapM hes he
    unfold rule? at he
    split at he
    · obtain ⟨w, hw, rfl⟩ := Option.map_eq_some_iff.mp he
      exact ⟨Bool.of_not_eq_false fun hhalf => h (.key hx hhalf),
        isWhole_of_text? (fun hhalf => h (.member hx hhalf)) hw⟩
    · cases he
  | _ => cases ht

end Json

def Svg.Canvas.IsWhole (canvas : Svg.Canvas Text) : Prop := ∀ s ∈ canvas.texts, isWhole s = true

namespace Config

structure IsWhole (c : Config) : Prop where
  name : isWhole c.name = true
  seed : isWhole c.grammar.seed = true
  rules : c.grammar.rules.IsWhole
  canvas : c.canvas.IsWhole

structure WholeGrammar (g : Grammar) : Prop where
  name : ∀ s ∈ g.name, isWhole s = true
  seed : isWhole g.seed = true
  rules : g.rules.IsWhole

lemma wholeGrammar_of_preset? {v : Json} {g : Grammar} (h : preset? v = some g) :
    WholeGrammar g := by
  obtain ⟨x, -, hx⟩ := Option.bind_eq_some_iff.mp h
  obtain ⟨key, -, hkey⟩ := Option.bind_eq_some_iff.mp hx
  obtain ⟨k, hmem, -⟩ := Catalog.mem_of_find? hkey
  have hall : ∀ p ∈ Catalog.all, (∀ s ∈ p.2.name, isWhole s = true) ∧ isWhole p.2.seed = true ∧
      ∀ e ∈ p.2.rules.entries, isWhole e.1 = true ∧ isWhole e.2 = true := by
    decide
  obtain ⟨hname, hseed, hrules⟩ := hall (k, g) hmem
  exact ⟨hname, hseed, hrules⟩

variable {v : Json} {c : Config}

lemma of_given {α : Type} {P : α → Prop} {path : List String} {read? : Json → Option α}
    {absent : Option α} {a : α} (h : ¬ v.HasHalf)
    (hread : ∀ x, ¬ x.HasHalf → ∀ a, read? x = some a → P a) (habsent : ∀ a ∈ absent, P a)
    (ha : given v path read? absent = some a) : P a := by
  unfold given at ha
  cases hat : v.at? path with
  | none =>
    rw [hat] at ha
    exact habsent a ha
  | some x =>
    rw [hat] at ha
    exact hread x (Json.not_hasHalf_of_at? h hat) a ha

lemma isWhole_of_given {path : List String} {absent : Option Text} {s : Text} (h : ¬ v.HasHalf)
    (habsent : ∀ s ∈ absent, isWhole s = true)
    (hs : given v path Json.text? absent = some s) : isWhole s = true :=
  of_given (P := (isWhole · = true)) h (fun _ hx _ => Json.isWhole_of_text? hx) habsent hs

lemma SaysGrammar.whole {g : Grammar} (hg : SaysGrammar v g) (h : ¬ v.HasHalf) :
    WholeGrammar g := by
  refine ⟨fun s hs => ?name, ?seed, ?rules⟩
  case name =>
    refine isWhole_of_given h ?_ (hg.name.trans hs)
    rintro _ ⟨⟩
    cases hpreset : preset? v with
    | none => rfl
    | some p =>
      cases hname : p.name with
      | none => simp [hname]
      | some s => simpa [hname] using (wholeGrammar_of_preset? hpreset).name s hname
  case seed =>
    refine isWhole_of_given h (fun s hs => ?_) hg.seed
    obtain ⟨p, hp, rfl⟩ := Option.map_eq_some_iff.mp hs
    exact (wholeGrammar_of_preset? hp).seed
  case rules =>
    refine of_given h (fun _ hx _ => Json.isWhole_of_rules? hx) ?_ hg.rules
    rintro _ ⟨⟩
    cases hpreset : preset? v with
    | none => exact fun e he => absurd he List.not_mem_nil
    | some p => exact (wholeGrammar_of_preset? hpreset).rules

lemma SaysCanvas.whole {canvas : Svg.Canvas Text} (hc : SaysCanvas v canvas) (h : ¬ v.HasHalf) :
    canvas.IsWhole := by
  have hliteral {literal : String} : ∀ s ∈ some (ofString literal), isWhole s = true := by
    rintro _ ⟨⟩
    exact isWhole_ofString literal
  have hbackground : ∀ s ∈ canvas.background, isWhole s = true :=
    of_given h (fun _ hx _ => Json.isWhole_of_background? hx)
      (by rintro _ ⟨⟩ s hs; cases hs) hc.background
  obtain ⟨stroke, -, fill, linecap, linejoin⟩ := hc.style
  intro s hs
  rcases List.mem_append.mp hs with hs | hs
  · simp only [Svg.Style.texts, List.mem_cons, List.not_mem_nil, or_false] at hs
    rcases hs with rfl | rfl | rfl | rfl
    · exact isWhole_of_given h hliteral stroke
    · exact isWhole_of_given h hliteral fill
    · exact isWhole_of_given h hliteral linecap
    · exact isWhole_of_given h hliteral linejoin
  · exact hbackground s (Option.mem_toList.mp hs)

lemma WholeGrammar.isWhole_name (h : WholeGrammar c.grammar) : isWhole c.name = true := by
  unfold Config.name
  cases hname : c.grammar.name with
  | none => rfl
  | some s =>
    simp only
    split
    · rfl
    · exact h.name s hname

lemma isWhole_of_ofJson (hc : ofJson v = .ok c) (h : ¬ v.HasHalf) : c.IsWhole := by
  obtain ⟨hgrammar, hcanvas⟩ := (finds_ofJson v).of_eq_ok hc
  have hwhole := hgrammar.whole h
  exact ⟨hwhole.isWhole_name, hwhole.seed, hwhole.rules, hcanvas.whole h⟩

lemma IsWhole.withIterations (h : c.IsWhole) (iterations : Option ℤ) :
    (c.withIterations iterations).IsWhole := by
  cases iterations with
  | none => exact h
  | some n => exact ⟨h.name, h.seed, h.rules, h.canvas⟩

lemma IsWhole.replacement (h : c.IsWhole) {b : Symbol} (hb : b.isChar = true) :
    isWhole (c.grammar.rules.replacement b) = true := by
  rcases c.grammar.rules.replacement_eq_or_mem b with hself | hmem
  · rw [hself]
    simp [isWhole, hb]
  · exact (h.rules _ hmem).2

lemma IsWhole.word (h : c.IsWhole) {limit n : ℤ} {w : Word}
    (hw : c.grammar.rules.expandWithin limit c.grammar.seed n = .ok w) : isWhole w = true := by
  have hclosed : c.grammar.rules.Closed c.grammar.seed {b | b.isChar = true} :=
    ⟨isWhole_iff.mp h.seed, fun b hb => isWhole_iff.mp (h.replacement hb)⟩
  cases n with
  | negSucc => cases hw
  | ofNat n =>
    obtain rfl := RuleTable.generation_of_expandWithin hw
    exact isWhole_iff.mpr fun b hb =>
      (RuleTable.isLeast_reachable _ _).2 hclosed (RuleTable.reachable_of_mem_generation hb)

end Config

end Lindenmayer
