import Lindenmayer.Proofs.Xml.Reader
import Mathlib.Data.List.TakeDrop
import Mathlib.Data.List.TakeWhile
import Mathlib.Order.Basic

/-! Values that are read as they were written. Such a value holds no quote, no ampersand, no angle
bracket that opens and no space but the plain one. A reference is longer than what it stands for, and so
no other value is read as itself. -/

namespace Lindenmayer

lemma Text.length_unifyBreaks_le (done s : List Char) :
    (unifyBreaks done s).length ≤ done.length + s.length := by
  induction done, s using unifyBreaks.induct with
  | case1 done => simp [unifyBreaks]
  | case2 done s ih | case3 done s h ih =>
    simp only [unifyBreaks, List.length_cons] at ih ⊢
    omega
  | case4 done c s h h' ih =>
    rw [unifyBreaks] <;> first | assumption | skip
    simp only [List.length_cons] at ih ⊢
    omega

lemma Text.unifyBreaks_of_notMem {s : List Char} (h : '\r' ∉ s) (done : List Char) :
    unifyBreaks done s = done.reverse ++ s := by
  induction s generalizing done with
  | nil => simp [unifyBreaks]
  | cons c s ih =>
    obtain ⟨hc, hs⟩ := not_or.mp (mt List.mem_cons.mpr h)
    have hc' : c ≠ '\r' := fun heq => hc heq.symm
    rw [unifyBreaks, ih hs]
    · simp
    · exact fun _ heq => absurd heq hc'
    · exact hc'

namespace Xml

/-- A value that stands for itself between double quotes. -/
def Verbatim (s : List Char) : Prop :=
  ∀ c ∈ s, isChar c = true ∧ c ∉ ['"', '&', '<', '\t', '\n', '\r']

lemma valueChar?_eq_some {c d : Char} (h : valueChar? c = some d) :
    isChar d = true ∧ d ∉ ['<', '\t', '\n', '\r'] ∧ (d = c ∨ d = ' ') := by
  unfold valueChar? at h
  split at h
  · obtain rfl := Option.some.inj h
    exact ⟨by decide, by decide, .inr rfl⟩
  · next hspace =>
    split at h
    · cases h
    · next hchar =>
      obtain rfl := Option.some.inj h
      simp_all [isSpace]

lemma valueChar?_of_verbatim {c : Char} (h : isChar c = true ∧ c ∉ ['"', '&', '<', '\t', '\n', '\r']) :
    valueChar? c = some c := by
  obtain ⟨hchar, hc⟩ := h
  simp only [List.mem_cons, List.not_mem_nil, or_false, not_or] at hc
  by_cases hspace : c = ' '
  · subst hspace
    rfl
  · simp [valueChar?, isSpace, hc, hchar, hspace]

lemma length_resolve_le {plain : Char → Option Char} {s t : List Char} :
    ∀ {pending}, resolve plain pending s = some t → t.length ≤ s.length := by
  induction s generalizing t with
  | nil =>
    intro pending h
    cases pending with
    | none =>
      obtain rfl := Option.some.inj h
      exact Nat.le_refl _
    | some n => cases h
  | cons c s ih =>
    intro pending h
    cases pending with
    | none =>
      rw [resolve] at h
      split at h
      · exact Nat.le_succ_of_le (ih h)
      · obtain ⟨d, -, h⟩ := Option.bind_eq_some_iff.mp h
        obtain ⟨ds, hds, h⟩ := Option.bind_eq_some_iff.mp h
        obtain rfl := Option.some.inj h
        exact Nat.succ_le_succ (ih hds)
    | some n =>
      rw [resolve] at h
      split at h
      · obtain ⟨d, -, h⟩ := Option.bind_eq_some_iff.mp h
        obtain ⟨ds, hds, h⟩ := Option.bind_eq_some_iff.mp h
        obtain rfl := Option.some.inj h
        exact Nat.succ_le_succ (ih hds)
      · exact Nat.le_succ_of_le (ih h)

lemma resolve_of_verbatim {s : List Char} (h : Verbatim s) :
    resolve valueChar? none s = some s := by
  induction s with
  | nil => rfl
  | cons c s ih =>
    obtain ⟨hc, hs⟩ := List.forall_mem_cons.mp h
    have hamp : c ≠ '&' := by
      rintro rfl
      exact hc.2 (by decide)
    rw [resolve, if_neg hamp, valueChar?_of_verbatim hc, ih hs]
    rfl

lemma plain_of_resolve {s t : List Char} (h : resolve valueChar? none s = some t)
    (hlength : s.length ≤ t.length) :
    ∀ c ∈ t, isChar c = true ∧ c ∉ ['&', '<', '\t', '\n', '\r'] := by
  induction s generalizing t with
  | nil =>
    obtain rfl := Option.some.inj h
    exact fun _ hc => absurd hc List.not_mem_nil
  | cons c s ih =>
    rw [resolve] at h
    split at h
    · exact absurd (hlength.trans (length_resolve_le h)) (Nat.not_succ_le_self _)
    · next hamp =>
      obtain ⟨d, hd, h⟩ := Option.bind_eq_some_iff.mp h
      obtain ⟨ds, hds, h⟩ := Option.bind_eq_some_iff.mp h
      obtain rfl := Option.some.inj h
      obtain ⟨hchar, hplain, hsame⟩ := valueChar?_eq_some hd
      have hamp' : d ≠ '&' := by
        rcases hsame with rfl | rfl
        · exact hamp
        · decide
      refine List.forall_mem_cons.mpr ⟨⟨hchar, ?_⟩, ih hds (Nat.le_of_succ_le_succ hlength)⟩
      rw [List.mem_cons, not_or]
      exact ⟨hamp', hplain⟩

lemma decode_of_verbatim {s : List Char} (h : Verbatim s) : decode valueChar? s = some s := by
  have hreturn : '\r' ∉ s := fun hc => (h _ hc).2 (by decide)
  rw [decode, Text.unifyBreaks_of_notMem hreturn, List.reverse_nil, List.nil_append]
  exact resolve_of_verbatim h

lemma takeWhile_append_quote (q : Char) (s rest : List Char) :
    (s ++ q :: rest).takeWhile (· != q) = s.takeWhile (· != q) := by
  induction s with
  | nil => simp
  | cons c s ih => by_cases hc : c = q <;> simp [hc, ih]

lemma dropWhile_append_quote {q : Char} {s : List Char} (h : q ∉ s) (rest : List Char) :
    (s ++ q :: rest).dropWhile (· != q) = q :: rest := by
  induction s with
  | nil => simp
  | cons c s ih =>
    obtain ⟨hc, hs⟩ := not_or.mp (mt List.mem_cons.mpr h)
    simp [Ne.symm hc, ih hs]

/-- What is read up to the first quote is all of a value only if the value is verbatim. -/
lemma verbatim_of_decode_takeWhile {s : List Char}
    (h : decode valueChar? (s.takeWhile (· != '"')) = some s) : Verbatim s := by
  have hprefix : s.takeWhile (· != '"') <+: s := List.takeWhile_prefix _
  have hunified := Text.length_unifyBreaks_le [] (s.takeWhile (· != '"'))
  rw [List.length_nil, Nat.zero_add] at hunified
  have hwhole : s.takeWhile (· != '"') = s := by
    apply hprefix.eq_of_length_le
    exact (length_resolve_le h).trans hunified
  have hplain := plain_of_resolve h (hunified.trans hprefix.length_le)
  intro c hc
  refine ⟨(hplain c hc).1, ?_⟩
  rw [List.mem_cons, not_or]
  refine ⟨?_, (hplain c hc).2⟩
  rw [← hwhole] at hc
  have hquote := List.mem_takeWhile_imp hc
  exact bne_iff_ne.mp hquote

lemma value?_eq_some_iff {s rest rest' : List Char} :
    value? ('"' :: (s ++ '"' :: rest)) = some (s, rest') ↔ Verbatim s ∧ rest' = rest := by
  have hspan : (s ++ '"' :: rest).span (· != '"') =
      (s.takeWhile (· != '"'), (s ++ '"' :: rest).dropWhile (· != '"')) := by
    rw [List.span_eq_takeWhile_dropWhile, takeWhile_append_quote]
  have hquote : Verbatim s → '"' ∉ s := fun h hc => (h _ hc).2 (by decide)
  have hquoted : ('"' = '"' || '"' = '\'') = true := rfl
  rw [value?, if_pos hquoted, hspan]
  constructor
  · intro h
    split at h
    · cases h
    · next raw q rest'' hsplit =>
      obtain ⟨rfl, hdrop⟩ := Prod.mk.inj hsplit
      obtain ⟨v, hv, h⟩ := Option.map_eq_some_iff.mp h
      obtain ⟨rfl, rfl⟩ := Prod.mk.inj h
      have hverbatim := verbatim_of_decode_takeWhile hv
      rw [dropWhile_append_quote (hquote hverbatim)] at hdrop
      exact ⟨hverbatim, (List.cons.inj hdrop).2.symm⟩
  · rintro ⟨h, rfl⟩
    have htake : s.takeWhile (· != '"') = s := by
      refine List.takeWhile_eq_self_iff.mpr fun c hc => bne_iff_ne.mpr ?_
      rintro rfl
      exact hquote h hc
    rw [dropWhile_append_quote (hquote h), htake]
    simp only
    rw [decode_of_verbatim h, Option.map_some]

end Xml

end Lindenmayer
