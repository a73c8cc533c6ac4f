import Lindenmayer.Decimal.Reading
import Lindenmayer.Proofs.Binary64.Closest
import Lindenmayer.Proofs.Decimal.Stripped

/-! Numbers that are written, read and written again. What is read is no farther from the numeral than what
was written, and so it is rounded to the same numeral. -/

namespace Lindenmayer.Decimal

open Binary64 (signed rational? rational?_eq IsClosest largest)

section Plain

def isPlain (c : Char) : Bool := c.isDigit || c = '-' || c = '.'

variable {c : Char} {s ds rest : List Char}

lemma isPadding_of_isPlain (h : isPlain c = true) : isPadding c = false := by
  simp only [isPlain, Bool.or_eq_true, decide_eq_true_eq] at h
  rcases h with (h | rfl) | rfl
  · obtain ⟨d, hd, rfl⟩ := exists_digitChar h
    interval_cases d <;> decide
  · decide
  · decide

lemma plainDigit_of_isPlain (h : isPlain c = true) : plainDigit c = c := by
  simp only [isPlain, Bool.or_eq_true, decide_eq_true_eq] at h
  rcases h with (h | rfl) | rfl
  · obtain ⟨d, hd, rfl⟩ := exists_digitChar h
    rw [plainDigit, digitValue_of_isDigit h]
    exact congrArg Nat.digitChar (Nat.toNat_digitChar_sub_48_of_lt_ten hd)
  · decide
  · decide

lemma unpadded_of_isPlain (h : ∀ c ∈ s, isPlain c = true) : unpadded s = s := by
  have hnone (s : List Char) (h : ∀ c ∈ s, isPlain c = true) : s.dropWhile isPadding = s := by
    cases s with
    | nil => rfl
    | cons c s =>
      rw [List.dropWhile_cons, isPadding_of_isPlain (h c List.mem_cons_self), if_neg Bool.false_ne_true]
  rw [unpadded, hnone s h, hnone s.reverse fun c hc => h c (List.mem_reverse.mp hc), List.reverse_reverse]
  exact (List.map_congr_left fun c hc => plainDigit_of_isPlain (h c hc)).trans (List.map_id s)

lemma dropUnderscores_of_isPlain (h : ∀ c ∈ s, isPlain c = true) :
    ∀ {previous : Char}, previous ≠ '_' → dropUnderscores previous s = some s := by
  induction s with
  | nil =>
    intro previous hprevious
    rw [dropUnderscores, if_neg hprevious]
  | cons c s ih =>
    intro previous hprevious
    have hc : c ≠ '_' := by
      rintro rfl
      exact absurd (h '_' List.mem_cons_self) (by decide)
    rw [dropUnderscores, if_neg hc, if_neg (by simp [hprevious]),
      ih (fun d hd => h d (List.mem_cons_of_mem c hd)) hc]
    rfl

lemma ofDigits_digitValues (ds : List Char) : ofDigits (digitValues ds) = Nat.ofDigitChars 10 ds 0 := by
  rw [ofDigits, digitValues, List.foldl_map, Nat.ofDigitChars_eq_foldl]
  rfl

end Plain

section Parts

variable {whole ds : List Char} (hwhole : IsWhole whole) (hds : ∀ c ∈ ds, c.isDigit = true)

include hwhole hds

omit hwhole in
lemma splitPoint_pointed : splitPoint (pointed ds) = (ds, []) := by
  cases ds with
  | nil => rfl
  | cons d ds =>
    have hend : ∀ c ∈ ([] : List Char).head?, c.isDigit = false := fun c hc => nomatch hc
    have hall := takeWhile_digits hds hend
    rw [List.append_nil] at hall
    change (d :: ds).span Char.isDigit = _
    rw [List.span_eq_takeWhile_dropWhile, hall.1, hall.2]

lemma readMagnitude_parts (negative : Bool) :
    readMagnitude negative (whole ++ pointed ds) =
      some (Binary64.ofDecimal negative (Nat.ofDigitChars 10 (whole ++ ds) 0) (-ds.length)) := by
  obtain ⟨htake, hdrop⟩ := takeWhile_digits hwhole.isDigit (isDigit_head?_pointed ds)
  have hne : whole.isEmpty = false := List.isEmpty_eq_false_iff.mpr hwhole.ne_nil
  unfold readMagnitude
  simp only [List.span_eq_takeWhile_dropWhile, htake, hdrop, splitPoint_pointed hds, hne,
    ofDigits_digitValues, readExponent]
  rw [Bool.false_and, if_neg Bool.false_ne_true]
  exact congrArg some (congrArg _ (zero_sub _))

lemma isPlain_of_mem_parts (negative : Bool) {c : Char}
    (hc : c ∈ sign negative ++ whole ++ pointed ds) : isPlain c = true := by
  have hdigit {c : Char} (h : c.isDigit = true) : isPlain c = true := by simp [isPlain, h]
  rw [List.mem_append, List.mem_append] at hc
  rcases hc with (hc | hc) | hc
  · rw [mem_sign hc]
    decide
  · exact hdigit (hwhole.isDigit c hc)
  · unfold pointed at hc
    split at hc
    · exact absurd hc List.not_mem_nil
    · rcases List.mem_cons.mp hc with rfl | hc
      · decide
      · exact hdigit (hds c hc)

omit hds in
lemma exists_digit (rest : List Char) :
    ∃ c tail, whole ++ rest = c :: tail ∧ c ∈ digitChars := by
  obtain ⟨c, tail, rfl⟩ := List.exists_cons_of_ne_nil hwhole.ne_nil
  exact ⟨c, tail ++ rest, rfl, mem_digitChars_iff.mpr (hwhole.isDigit c List.mem_cons_self)⟩

omit hds in
lemma splitSign_parts (negative : Bool) (rest : List Char) :
    splitSign (sign negative ++ (whole ++ rest)) = (negative, whole ++ rest) := by
  cases negative with
  | true => rfl
  | false =>
    obtain ⟨c, tail, hsplit, hc⟩ := exists_digit hwhole rest
    rw [hsplit]
    change splitSign (c :: tail) = _
    unfold splitSign
    split
    · next h =>
      obtain ⟨rfl, -⟩ := List.cons.inj h
      exact absurd hc (by decide)
    · next h =>
      obtain ⟨rfl, -⟩ := List.cons.inj h
      exact absurd hc (by decide)
    · rfl

omit hds in
/-- The names of what is not a number begin with letters. -/
lemma ofList_ne_name (rest : List Char) {name : String} {c : Char} (hname : name.toList.head? = some c)
    (hc : c ∉ digitChars.map Char.toLower) : String.ofList ((whole ++ rest).map Char.toLower) ≠ name := by
  obtain ⟨d, tail, hsplit, hd⟩ := exists_digit hwhole rest
  rintro rfl
  rw [hsplit, String.toList_ofList, List.map_cons, List.head?_cons, Option.some_inj] at hname
  exact hc (hname ▸ List.mem_map_of_mem hd)

lemma readFloat_parts (negative : Bool) :
    readFloat (sign negative ++ whole ++ pointed ds) =
      some (Binary64.ofDecimal negative (Nat.ofDigitChars 10 (whole ++ ds) 0) (-ds.length)) := by
  have hplain : ∀ c ∈ sign negative ++ whole ++ pointed ds, isPlain c = true :=
    fun _ => isPlain_of_mem_parts hwhole hds negative
  have hinf : String.ofList ((whole ++ pointed ds).map Char.toLower) ≠ "inf" :=
    ofList_ne_name hwhole _ (c := 'i') rfl (by decide +kernel)
  have hinfinity : String.ofList ((whole ++ pointed ds).map Char.toLower) ≠ "infinity" :=
    ofList_ne_name hwhole _ (c := 'i') rfl (by decide +kernel)
  have hnan : String.ofList ((whole ++ pointed ds).map Char.toLower) ≠ "nan" :=
    ofList_ne_name hwhole _ (c := 'n') rfl (by decide +kernel)
  unfold readFloat
  rw [unpadded_of_isPlain hplain, dropUnderscores_of_isPlain hplain (by decide), Option.bind_eq_bind,
    Option.bind_some, List.append_assoc, splitSign_parts hwhole]
  dsimp only
  rw [decide_eq_false hinf, decide_eq_false hinfinity, Bool.or_self, if_neg Bool.false_ne_true,
    if_neg hnan]
  exact readMagnitude_parts hwhole hds negative

end Parts

section Reread

variable {places : ℕ} {x y : Float} {q r d : ℚ} {t : List Char}

/-- A numeral within the range of doubles is read as the double that is closest to what it says. -/
theorem readFloat_closest (ht : IsCanonical t) (hq : numeralValue? t = some q) (hle : |q| ≤ largest) :
    ∃ y, readFloat t = some y ∧ IsClosest q y := by
  obtain ⟨negative, whole, decimals, hwhole, hdecimals, rfl⟩ := rmatch_numeralForm_iff.mp ht.1
  rw [numeralValue?_parts negative hwhole.ne_nil hwhole.isDigit hdecimals.isDigit, Option.some_inj] at hq
  refine ⟨_, readFloat_parts hwhole hdecimals.isDigit negative, ?_⟩
  have hvalue : (Nat.ofDigitChars 10 (whole ++ decimals) 0 : ℚ) / 10 ^ decimals.length =
      Nat.ofDigitChars 10 (whole ++ decimals) 0 * 10 ^ (-decimals.length : ℤ) := by
    rw [zpow_neg, zpow_natCast, div_eq_mul_inv]
  have hpos : (0 : ℚ) ≤ Nat.ofDigitChars 10 (whole ++ decimals) 0 * 10 ^ (-decimals.length : ℤ) :=
    mul_nonneg (Nat.cast_nonneg _) (zpow_nonneg (by norm_num) _)
  rw [hvalue] at hq
  rw [← hq, Binary64.abs_signed, abs_of_nonneg hpos] at hle
  rw [← hq]
  exact Binary64.isClosest_ofDecimal negative hle

lemma IsNearest.closer {n : ℤ} (h : IsNearest q n) (hle : |r - n| ≤ |q - n|) : IsNearest r n :=
  ⟨hle.trans h.1, fun htie => h.2 (le_antisymm h.1 (htie.ge.trans hle))⟩

/-- What is no farther from the rounded number than the number was is rounded to it too. -/
lemma IsRounded.closer (h : IsRounded places q d) (hle : |r - d| ≤ |q - d|) : IsRounded places r d := by
  obtain ⟨n, rfl, hn⟩ := h
  have hpower : (0 : ℚ) < 10 ^ places := pow_pos (by norm_num) places
  have hscaled (s : ℚ) : |s * 10 ^ places - n| = |s - n / 10 ^ places| * 10 ^ places := by
    rw [← abs_of_pos hpower, ← abs_mul, abs_of_pos hpower, sub_mul, div_mul_cancel₀ _ hpower.ne']
  refine ⟨n, rfl, hn.closer ?_⟩
  rw [hscaled, hscaled]
  exact mul_le_mul_of_nonneg_right hle hpower.le

lemma abs_le_largest (h : rational? x = some r) : |r| ≤ largest := by
  obtain ⟨negative, m, f, hvalue, rfl⟩ := Binary64.exists_value h
  obtain ⟨hm, -, hf⟩ := Binary64.value_bounds hvalue
  have hm' : (m : ℚ) ≤ (2 ^ 53 - 1 : ℕ) := by exact_mod_cast Nat.le_pred_of_lt hm
  rw [Binary64.abs_signed, abs_of_nonneg (by positivity), Binary64.cast_largest]
  exact mul_le_mul hm' (zpow_le_zpow_right₀ one_le_two hf) (by positivity) (by positivity)

/-- The largest double is a whole number, and so nothing is rounded beyond it. -/
lemma IsRounded.within (h : IsRounded places q d) (hle : |q| ≤ largest) : |d| ≤ largest := by
  have hexact : IsRounded places (largest : ℚ) largest :=
    isRounded_of_exact (n := largest * 10 ^ places) (by push_cast; rfl)
  obtain ⟨hlow, hhigh⟩ := abs_le.mp hle
  exact abs_le.mpr ⟨hexact.neg.mono h hlow, h.mono hexact hhigh⟩

/-- What is written can be read, and whatever double is closest to it is written alike. -/
theorem fixed?_reread (hx : x.isFinite = true) :
    ((∃ t, fixed? places x = .ok t) ↔ places < 2 ^ 31) ∧
    (places < 2 ^ 31 →
      ∃ t q, fixed? places x = .ok t ∧ numeralValue? t = some q ∧
        (∃ y, readFloat t = some y ∧ IsClosest q y) ∧
        ∀ y, IsClosest q y → fixed? places y = .ok t) := by
  refine ⟨exists_fixed?_eq_ok_iff, fun hplaces => ?_⟩
  obtain ⟨q, hq, hrounded⟩ := isRounded_fixed places hx
  have hcanonical := (((isTextOf_fixed hx hq).unique _).mpr rfl).1
  have hle := hrounded.within (abs_le_largest (rational?_eq hx))
  refine ⟨_, q, fixed?_eq_ok hplaces x, hq, readFloat_closest hcanonical hq hle, fun y hy => ?_⟩
  obtain ⟨negative, m, f, hvalue, hclosest⟩ := hy
  have hy : y.isFinite = true := Binary64.isFinite_of_value hvalue
  have hread : rational? y = some (signed negative (m * 2 ^ f)) := by rw [rational?, hvalue]
  rw [rational?_eq hy, Option.some_inj] at hread
  obtain ⟨q', hq', hrounded'⟩ := isRounded_fixed places hy
  have hsame := hrounded.closer (hclosest x _ (rational?_eq hx)).1
  rw [← hread] at hsame
  obtain rfl := hrounded'.unique hsame
  rw [fixed?_eq_ok hplaces y, fixed_eq_of_numeralValue? hq' hq]

theorem fixed?_reread_cents :
    (2.675 : Float).isFinite = true ∧ fixed? (2 : ℕ) 2.675 = .ok ['2', '.', '6', '7'] ∧
      ∃ y, readFloat ['2', '.', '6', '7'] = some y ∧ IsClosest (267 / 100) y ∧
        fixed? (2 : ℕ) y = .ok ['2', '.', '6', '7'] := by
  have hfinite : (2.675 : Float).isFinite = true := rfl
  have htext : fixed 2 2.675 = ['2', '.', '6', '7'] := by decide +kernel
  have hvalue : numeralValue? ['2', '.', '6', '7'] = some (267 / 100) := by decide +kernel
  obtain ⟨t, q, ht, hq, ⟨y, hread, hclosest⟩, hagain⟩ :=
    (@fixed?_reread 2 2.675 hfinite).2 (by decide)
  have ht' : t = ['2', '.', '6', '7'] :=
    (Except.ok.inj (ht.symm.trans (fixed?_eq_ok (by decide) _))).trans htext
  subst ht'
  obtain rfl := Option.some.inj (hq.symm.trans hvalue)
  exact ⟨hfinite, ht, y, hread, hclosest, hagain y hclosest⟩

/-- With too many places nothing is written, and nothing can be read. -/
theorem fixed?_not_reread :
    (1.5 : Float).isFinite = true ∧ (0 : ℤ) ≤ 2147483648 ∧
      ¬ ∃ t y, fixed? 2147483648 1.5 = .ok t ∧ readFloat t = some y ∧ fixed? 2147483648 y = .ok t := by
  refine ⟨rfl, by decide, ?_⟩
  rintro ⟨t, y, h, -⟩
  cases h

end Reread

end Lindenmayer.Decimal
