import Lindenmayer.Proofs.Decimal.Canonical
import Mathlib.Computability.RegularExpressions

/-! The form of a numeral. Before the point no zero leads other digits, behind it no zero comes last, and
zero has no sign. A number that can be written in this form can be written so in one way. -/

namespace Lindenmayer.Decimal

-- The core power, whatever else is imported.
attribute [local instance (2000)] instPowNat

open RegularExpression (char star)
open Binary64 (signed)

section Forms

def oneOf (cs : List Char) : RegularExpression Char := (cs.map char).sum

def digitChars : List Char := ['0', '1', '2', '3', '4', '5', '6', '7', '8', '9']

def digitForm : RegularExpression Char := oneOf digitChars

def nonzeroForm : RegularExpression Char := oneOf digitChars.tail

def wholeForm : RegularExpression Char := char '0' + nonzeroForm * star digitForm

def decimalsForm : RegularExpression Char := char '.' * star digitForm * nonzeroForm

/-- The form `-?(0|[1-9][0-9]*)(\.[0-9]*[1-9])?`. -/
def numeralForm : RegularExpression Char := (1 + char '-') * wholeForm * (1 + decimalsForm)

/-- The form of a numeral, but for a zero with a sign. -/
def IsCanonical (t : List Char) : Prop := numeralForm.rmatch t = true ∧ t ≠ ['-', '0']

instance (t : List Char) : Decidable (IsCanonical t) := inferInstanceAs (Decidable (_ ∧ _))

variable {s t : List Char} {p q : RegularExpression Char} {c : Char}

lemma rmatch_optional_iff : (1 + p).rmatch s = true ↔ s = [] ∨ p.rmatch s = true := by
  rw [RegularExpression.add_rmatch_iff, RegularExpression.one_rmatch_iff]

lemma rmatch_oneOf_iff {cs : List Char} : (oneOf cs).rmatch s = true ↔ ∃ c ∈ cs, s = [c] := by
  induction cs with
  | nil => simp [oneOf]
  | cons c cs ih =>
    have hcons : oneOf (c :: cs) = char c + oneOf cs := rfl
    rw [hcons, RegularExpression.add_rmatch_iff, RegularExpression.char_rmatch_iff, ih,
      List.exists_mem_cons_iff]

lemma exists_digitChar (h : c.isDigit = true) : ∃ d < 10, c = Nat.digitChar d := by
  simp only [Char.isDigit, Bool.and_eq_true, decide_eq_true_eq] at h
  have hlow : 48 ≤ c.toNat := h.1
  have hhigh : c.toNat ≤ 57 := h.2
  refine ⟨c.toNat - 48, by omega, Char.toNat_inj.mp ?_⟩
  rw [Nat.toNat_digitChar_of_lt_ten (by omega)]
  omega

lemma mem_digitChars_iff : c ∈ digitChars ↔ c.isDigit = true := by
  constructor
  · intro h
    have hall : digitChars.all Char.isDigit = true := rfl
    exact List.all_eq_true.mp hall c h
  · intro h
    obtain ⟨d, hd, rfl⟩ := exists_digitChar h
    interval_cases d <;> decide

lemma mem_nonzero_iff : c ∈ digitChars.tail ↔ c.isDigit = true ∧ c ≠ '0' := by
  have hcons : digitChars = '0' :: digitChars.tail := rfl
  have hzero : '0' ∉ digitChars.tail := by decide
  rw [← mem_digitChars_iff, hcons, List.mem_cons]
  constructor
  · intro h
    exact ⟨.inr h, fun hc => hzero (hc ▸ h)⟩
  · rintro ⟨h, hne⟩
    exact h.resolve_left hne

lemma rmatch_digits_iff : (star digitForm).rmatch s = true ↔ ∀ c ∈ s, c.isDigit = true := by
  simp only [RegularExpression.star_rmatch_iff, digitForm, rmatch_oneOf_iff, mem_digitChars_iff]
  constructor
  · rintro ⟨parts, rfl, hparts⟩ c hc
    obtain ⟨part, hpart, hc⟩ := List.mem_flatten.mp hc
    obtain ⟨-, d, hd, rfl⟩ := hparts part hpart
    exact List.mem_singleton.mp hc ▸ hd
  · intro h
    refine ⟨s.map ([·]), by rw [← List.flatMap_def, List.flatMap_singleton'], fun part hpart => ?_⟩
    obtain ⟨c, hc, rfl⟩ := List.mem_map.mp hpart
    exact ⟨List.cons_ne_nil c [], c, h c hc, rfl⟩

end Forms

/-- Digits before the point: a zero leads only where it is alone. -/
structure IsWhole (ds : List Char) : Prop where
  ne_nil : ds ≠ []
  isDigit : ∀ c ∈ ds, c.isDigit = true
  leading : ds.head? = some '0' → ds = ['0']

/-- Digits behind the point: none may be zero at the end. -/
structure AreDecimals (ds : List Char) : Prop where
  isDigit : ∀ c ∈ ds, c.isDigit = true
  trailing : ds.getLast? ≠ some '0'

section Parts

variable {s t ds : List Char}

lemma rmatch_sign_iff : (1 + char '-').rmatch s = true ↔ ∃ negative, s = sign negative := by
  rw [rmatch_optional_iff, RegularExpression.char_rmatch_iff, Bool.exists_bool]
  rfl

lemma rmatch_whole_iff : wholeForm.rmatch s = true ↔ IsWhole s := by
  simp only [wholeForm, RegularExpression.add_rmatch_iff, RegularExpression.mul_rmatch_iff,
    RegularExpression.char_rmatch_iff, rmatch_digits_iff, nonzeroForm, rmatch_oneOf_iff, mem_nonzero_iff]
  constructor
  · rintro (rfl | ⟨-, ds, rfl, ⟨c, ⟨hc, hne⟩, rfl⟩, hds⟩)
    · exact ⟨by decide, List.forall_mem_singleton.mpr rfl, fun _ => rfl⟩
    · refine ⟨List.cons_ne_nil c ds, List.forall_mem_cons.mpr ⟨hc, hds⟩, fun hzero => ?_⟩
      exact absurd (Option.some.inj hzero) hne
  · rintro ⟨hne, hdigit, hleading⟩
    obtain ⟨c, ds, rfl⟩ := List.exists_cons_of_ne_nil hne
    by_cases hzero : c = '0'
    · exact .inl (hleading (congrArg some hzero))
    · rw [List.forall_mem_cons] at hdigit
      exact .inr ⟨[c], ds, rfl, ⟨c, ⟨hdigit.1, hzero⟩, rfl⟩, hdigit.2⟩

lemma rmatch_decimals_iff : (1 + decimalsForm).rmatch s = true ↔ ∃ ds, AreDecimals ds ∧ s = pointed ds := by
  simp only [rmatch_optional_iff, decimalsForm, RegularExpression.mul_rmatch_iff,
    RegularExpression.char_rmatch_iff, rmatch_digits_iff, nonzeroForm, rmatch_oneOf_iff, mem_nonzero_iff]
  constructor
  · rintro (rfl | ⟨-, -, rfl, ⟨-, ds, rfl, rfl, hds⟩, c, ⟨hc, hne⟩, rfl⟩)
    · exact ⟨[], ⟨List.forall_mem_nil _, by decide⟩, rfl⟩
    · refine ⟨ds ++ [c], ⟨?_, ?_⟩, ?_⟩
      · rw [List.forall_mem_append]
        exact ⟨hds, List.forall_mem_singleton.mpr hc⟩
      · rw [List.getLast?_concat]
        exact fun h => hne (Option.some.inj h)
      · rw [pointed, if_neg (by simp)]
        rfl
  · rintro ⟨ds, ⟨hdigit, htrailing⟩, rfl⟩
    obtain rfl | ⟨front, c, rfl⟩ := List.eq_nil_or_concat' ds
    · exact .inl rfl
    · rw [List.getLast?_concat] at htrailing
      rw [List.forall_mem_append] at hdigit
      refine .inr ⟨'.' :: front, [c], ?_, ⟨['.'], front, rfl, rfl, hdigit.1⟩, c,
        ⟨hdigit.2 c List.mem_cons_self, fun h => htrailing (congrArg some h)⟩, rfl⟩
      rw [pointed, if_neg (by simp)]
      rfl

lemma rmatch_numeralForm_iff :
    numeralForm.rmatch t = true ↔ ∃ negative whole decimals, IsWhole whole ∧ AreDecimals decimals ∧
      t = sign negative ++ whole ++ pointed decimals := by
  simp only [numeralForm, RegularExpression.mul_rmatch_iff, rmatch_sign_iff, rmatch_whole_iff,
    rmatch_decimals_iff]
  constructor
  · rintro ⟨-, -, rfl, ⟨-, whole, rfl, ⟨negative, rfl⟩, hwhole⟩, decimals, hdecimals, rfl⟩
    exact ⟨negative, whole, decimals, hwhole, hdecimals, rfl⟩
  · rintro ⟨negative, whole, decimals, hwhole, hdecimals, rfl⟩
    exact ⟨_, _, rfl, ⟨_, _, rfl, ⟨negative, rfl⟩, hwhole⟩, decimals, hdecimals, rfl⟩

end Parts

section Digits

variable {ds : List Char}

lemma isWhole_digits (n : ℕ) : IsWhole (digits n) := by
  refine ⟨Nat.toDigits_ne_nil, fun c => isDigit_of_mem_digits, ?_⟩
  induction n using Nat.strong_induction_on with
  | h n ih =>
    rcases Nat.lt_or_ge n 10 with hlt | hge
    · rw [digits, Nat.toDigits_of_lt_base hlt]
      exact fun h => congrArg (fun c => [c]) (Option.some.inj h)
    · -- A number that has another digit before its last one does not begin with a zero.
      have hquotient : n / 10 ≠ 0 := by omega
      have hsplit : digits n = digits (n / 10) ++ [Nat.digitChar (n % 10)] :=
        Nat.toDigits_of_base_le (by decide) hge
      rw [hsplit, List.head?_append_of_ne_nil (digits (n / 10)) Nat.toDigits_ne_nil]
      intro hhead
      have hvalue := congrArg (Nat.ofDigitChars 10 · 0) (ih (n / 10) (by omega) hhead)
      rw [digits, Nat.ofDigitChars_ten_toDigits] at hvalue
      exact absurd hvalue hquotient

lemma ofDigitChars_concat (ds : List Char) {d : ℕ} (hd : d < 10) :
    Nat.ofDigitChars 10 (ds ++ [Nat.digitChar d]) 0 = 10 * Nat.ofDigitChars 10 ds 0 + d := by
  rw [Nat.ofDigitChars_append, Nat.ofDigitChars_cons_digitChar_of_lt_ten hd, Nat.ofDigitChars_nil]

lemma paddedDigits_ofDigitChars (h : ∀ c ∈ ds, c.isDigit = true) :
    paddedDigits ds.length (Nat.ofDigitChars 10 ds 0) = ds := by
  induction ds using List.reverseRecOn with
  | nil => rfl
  | append_singleton ds c ih =>
    rw [List.forall_mem_append] at h
    obtain ⟨d, hd, rfl⟩ := exists_digitChar (h.2 c List.mem_cons_self)
    have hquotient : (10 * Nat.ofDigitChars 10 ds 0 + d) / 10 = Nat.ofDigitChars 10 ds 0 := by omega
    have hlast : (10 * Nat.ofDigitChars 10 ds 0 + d) % 10 = d := by omega
    rw [List.length_append, List.length_singleton, paddedDigits, ofDigitChars_concat ds hd, hquotient,
      hlast, ih h.1]

lemma ofDigitChars_lt (h : ∀ c ∈ ds, c.isDigit = true) : Nat.ofDigitChars 10 ds 0 < 10 ^ ds.length := by
  have hmod := ofDigitChars_paddedDigits ds.length (Nat.ofDigitChars 10 ds 0)
  rw [paddedDigits_ofDigitChars h] at hmod
  exact (Nat.mod_eq_iff_lt (Nat.pow_pos (by decide)).ne').mp hmod.symm

lemma IsWhole.digits_ofDigitChars (h : IsWhole ds) : digits (Nat.ofDigitChars 10 ds 0) = ds := by
  induction ds using List.reverseRecOn with
  | nil => exact absurd rfl h.ne_nil
  | append_singleton ds c ih =>
    obtain ⟨d, hd, rfl⟩ := exists_digitChar (h.isDigit c (by simp))
    rw [ofDigitChars_concat ds hd]
    by_cases hds : ds = []
    · rw [hds, Nat.ofDigitChars_nil, Nat.mul_zero, Nat.zero_add]
      exact Nat.toDigits_of_lt_base hd
    · have hzero : ds.head? ≠ some '0' := by
        intro hhead
        have hone := h.leading (by rwa [List.head?_append_of_ne_nil _ hds])
        exact hds (List.append_eq_singleton_iff.mp hone |>.resolve_right (by simp) |>.1)
      have hwhole := ih ⟨hds, fun c hc => h.isDigit c (List.mem_append_left _ hc),
        fun hhead => absurd hhead hzero⟩
      have hpos : 0 < Nat.ofDigitChars 10 ds 0 := by
        refine Nat.pos_of_ne_zero fun hnone => hzero ?_
        rw [← hwhole, hnone]
        rfl
      have hsplit := Nat.toDigits_append_toDigits (b := 10) (by decide) hpos hd
      rw [digits, ← hsplit, ← digits, hwhole, Nat.toDigits_of_lt_base hd]

lemma IsWhole.eq_zero (h : IsWhole ds) (hzero : Nat.ofDigitChars 10 ds 0 = 0) : ds = ['0'] := by
  rw [← h.digits_ofDigitChars, hzero]
  rfl

end Digits

section Numerals

variable {ds s t : List Char}

lemma getLast?_trimZeros (ds : List Char) : (trimZeros ds).getLast? ≠ some '0' := by
  intro h
  have hne : trimZeros ds ≠ [] := by
    rintro hnil
    rw [hnil] at h
    cases h
  rw [List.getLast?_eq_some_getLast hne] at h
  have hlast := List.rdropWhile_last_not (· == '0') ds hne
  exact hlast (beq_iff_eq.mpr (Option.some.inj h))

lemma trimZeros_of_getLast? (h : ds.getLast? ≠ some '0') : trimZeros ds = ds := by
  apply List.rdropWhile_eq_self_iff.mpr
  intro hne hzero
  exact h ((List.getLast?_eq_some_getLast hne).trans (congrArg some (beq_iff_eq.mp hzero)))

lemma rmatch_numeral (negative : Bool) (places n : ℕ) :
    numeralForm.rmatch (numeral negative places n) = true :=
  rmatch_numeralForm_iff.mpr ⟨_, _, _, isWhole_digits _,
    ⟨fun _ => isDigit_of_mem_decimals, getLast?_trimZeros _⟩, rfl⟩

lemma numeral_zero (negative : Bool) (places : ℕ) : numeral negative places 0 = ['0'] := by
  have hsame : signed negative (((0 : ℕ) : ℚ) / 10 ^ places) = signed false (((0 : ℕ) : ℚ) / 10 ^ 0) := by
    cases negative <;> simp [signed]
  exact numeral_eq_of_value hsame

lemma isCanonical_numeral (negative : Bool) (places n : ℕ) : IsCanonical (numeral negative places n) := by
  refine ⟨rmatch_numeral negative places n, fun h => ?_⟩
  have hvalue := numeralValue?_numeral negative places n
  have hnone : numeralValue? ['-', '0'] = some 0 := by
    simp [numeralValue?, magnitude?, decimalsValue?, Nat.ofDigitChars]
  rw [h, hnone, Option.some_inj, eq_comm, signed_div] at hvalue
  have hzero : n = 0 := by
    have hnum := (div_eq_zero_iff.mp hvalue).resolve_right (pow_ne_zero places (by norm_num))
    cases negative <;> simpa [signed] using hnum
  rw [hzero, numeral_zero] at h
  cases h

lemma paddedDigits_zero (places : ℕ) : paddedDigits places 0 = List.replicate places '0' := by
  induction places with
  | zero => rfl
  | succ places ih =>
    rw [paddedDigits, Nat.zero_div, ih, List.replicate_succ']
    rfl

lemma trimZeros_paddedDigits_zero (places : ℕ) : trimZeros (paddedDigits places 0) = [] := by
  rw [paddedDigits_zero]
  apply List.rdropWhile_eq_nil_iff.mpr
  intro c hc
  exact beq_iff_eq.mpr (List.eq_of_mem_replicate hc)

lemma AreDecimals.eq_nil (h : AreDecimals ds) (hzero : Nat.ofDigitChars 10 ds 0 = 0) : ds = [] := by
  rw [← trimZeros_of_getLast? h.trailing, ← paddedDigits_ofDigitChars h.isDigit, hzero,
    trimZeros_paddedDigits_zero]

lemma exists_numeral_of_isCanonical (h : IsCanonical t) :
    ∃ negative places n, t = numeral negative places n := by
  obtain ⟨hform, hminus⟩ := h
  obtain ⟨negative, whole, decimals, hwhole, hdecimals, rfl⟩ := rmatch_numeralForm_iff.mp hform
  refine ⟨negative, decimals.length, Nat.ofDigitChars 10 (whole ++ decimals) 0, ?_⟩
  have hpos : 0 < 10 ^ decimals.length := Nat.pow_pos (by decide)
  have hlt := ofDigitChars_lt hdecimals.isDigit
  have hsign : (negative && 10 ^ decimals.length * Nat.ofDigitChars 10 whole 0 +
      Nat.ofDigitChars 10 decimals 0 != 0) = negative := by
    rw [Bool.and_eq_left_iff_imp, bne_iff_ne]
    intro hnegative hzero
    obtain ⟨hw, hd⟩ := Nat.add_eq_zero_iff.mp hzero
    have hone := hwhole.eq_zero ((Nat.mul_eq_zero.mp hw).resolve_left hpos.ne')
    have hnil := hdecimals.eq_nil hd
    rw [hnegative, hone, hnil] at hminus
    exact hminus rfl
  rw [numeral, Nat.ofDigitChars_append, Nat.ofDigitChars_eq_ofDigitChars_zero, hsign,
    Nat.mul_add_div hpos, Nat.div_eq_of_lt hlt, Nat.add_zero, Nat.mul_add_mod, Nat.mod_eq_of_lt hlt,
    hwhole.digits_ofDigitChars, paddedDigits_ofDigitChars hdecimals.isDigit,
    trimZeros_of_getLast? hdecimals.trailing]
  rfl

lemma IsCanonical.ne_nil (h : IsCanonical t) : t ≠ [] := by
  rintro rfl
  exact absurd h.1 (by decide)

lemma IsCanonical.eq_of_numeralValue? (hs : IsCanonical s) (ht : IsCanonical t)
    (h : numeralValue? s = numeralValue? t) : s = t := by
  obtain ⟨_, _, _, rfl⟩ := exists_numeral_of_isCanonical hs
  obtain ⟨_, _, _, rfl⟩ := exists_numeral_of_isCanonical ht
  rw [numeralValue?_numeral, numeralValue?_numeral, Option.some_inj] at h
  exact numeral_eq_of_value h

end Numerals

end Lindenmayer.Decimal
