import Lindenmayer.Proofs.Decimal.Fixed
import Lindenmayer.Proofs.Decimal.Rounding
import Mathlib.Data.List.DropRight

/-! What a numeral says. It is a whole number, perhaps with a sign in front and decimals behind, and the
numeral with a bounded number of decimals says the nearest number that has so few. -/

namespace Lindenmayer.Binary64

def signed (negative : Bool) (q : ℚ) : ℚ := if negative then -q else q

/-- The number that a double is, if it is one. -/
def rational? (x : Float) : Option ℚ :=
  match value x with
  | .finite negative mantissa exponent => some (signed negative (mantissa * 2 ^ exponent))
  | _ => none

lemma cast_fraction (mantissa : ℕ) (exponent : ℤ) :
    ((fraction mantissa exponent).1 : ℚ) / (fraction mantissa exponent).2 =
      mantissa * 2 ^ exponent := by
  rcases Int.le_total 0 exponent with h | h
  · obtain ⟨n, rfl⟩ := Int.eq_ofNat_of_zero_le h
    simp [fraction]
  · obtain ⟨n, hn⟩ := Int.eq_ofNat_of_zero_le (Int.neg_nonneg_of_nonpos h)
    obtain rfl : exponent = -n := by omega
    simp [fraction, div_eq_mul_inv]

end Lindenmayer.Binary64

namespace Lindenmayer.Decimal

open Binary64 (signed)

/-- What decimals add to whole digits. A point wants digits behind it. -/
def decimalsValue? (whole : List Char) : List Char → Option ℚ
  | [] => some (Nat.ofDigitChars 10 whole 0)
  | '.' :: ds =>
    if ds.isEmpty || !ds.all Char.isDigit then none
    else some (Nat.ofDigitChars 10 (whole ++ ds) 0 / 10 ^ ds.length)
  | _ => none

def magnitude? (s : List Char) : Option ℚ :=
  let whole := s.takeWhile Char.isDigit
  if whole.isEmpty then none else decimalsValue? whole (s.dropWhile Char.isDigit)

/-- The number that a numeral says. -/
def numeralValue? : List Char → Option ℚ
  | '-' :: s => (magnitude? s).map (- ·)
  | s => magnitude? s

lemma ofDigitChars_paddedDigits (places n : ℕ) :
    Nat.ofDigitChars 10 (paddedDigits places n) 0 = n % 10 ^ places := by
  induction places generalizing n with
  | zero => simp [paddedDigits, Nat.mod_one]
  | succ places ih =>
    have hlt : n % 10 < 10 := Nat.mod_lt n (by decide)
    rw [paddedDigits, Nat.ofDigitChars_append, ih, Nat.ofDigitChars_cons_digitChar_of_lt_ten hlt,
      Nat.ofDigitChars_nil, pow_succ', Nat.mod_mul, Nat.add_comm]

lemma length_paddedDigits (places n : ℕ) : (paddedDigits places n).length = places := by
  induction places generalizing n with
  | zero => rfl
  | succ places ih => rw [paddedDigits, List.length_append, ih, List.length_singleton]

lemma trimZeros_append (ds : List Char) : ∃ k, trimZeros ds ++ List.replicate k '0' = ds := by
  refine ⟨(ds.reverse.takeWhile (· == '0')).length, ?_⟩
  have hzeros : ds.reverse.takeWhile (· == '0') =
      List.replicate (ds.reverse.takeWhile (· == '0')).length '0' := by
    refine List.eq_replicate_of_mem fun c hc => ?_
    have hzero := List.mem_takeWhile_imp hc
    exact beq_iff_eq.mp hzero
  rw [trimZeros, ← List.reverse_replicate, ← hzeros, ← List.reverse_append,
    List.takeWhile_append_dropWhile, List.reverse_reverse]

section Digits

variable {ds rest : List Char}

lemma takeWhile_digits (hds : ∀ c ∈ ds, c.isDigit = true) (hrest : ∀ c ∈ rest.head?, c.isDigit = false) :
    (ds ++ rest).takeWhile Char.isDigit = ds ∧ (ds ++ rest).dropWhile Char.isDigit = rest := by
  rw [List.takeWhile_append_of_pos hds, List.dropWhile_append_of_pos hds]
  cases rest with
  | nil => exact ⟨List.append_nil ds, rfl⟩
  | cons c rest => simp [hrest c rfl]

lemma magnitude?_append (hne : ds ≠ []) (hds : ∀ c ∈ ds, c.isDigit = true)
    (hrest : ∀ c ∈ rest.head?, c.isDigit = false) :
    magnitude? (ds ++ rest) = decimalsValue? ds rest := by
  obtain ⟨htake, hdrop⟩ := takeWhile_digits hds hrest
  unfold magnitude?
  rw [htake, hdrop]
  simp [hne]

lemma numeralValue?_of_digit {c : Char} (hc : c.isDigit = true) (s : List Char) :
    numeralValue? (c :: s) = magnitude? (c :: s) := by
  unfold numeralValue?
  split
  · next h =>
    obtain ⟨rfl, -⟩ := List.cons.inj h
    cases hc
  · rfl

lemma numeralValue?_sign (hne : ds ≠ []) (hds : ∀ c ∈ ds, c.isDigit = true)
    (negative : Bool) (rest : List Char) :
    numeralValue? (sign negative ++ ds ++ rest) =
      (magnitude? (ds ++ rest)).map (signed negative) := by
  obtain ⟨c, ds', rfl⟩ := List.exists_cons_of_ne_nil hne
  cases negative with
  | false =>
    have hid : signed false = id := rfl
    rw [hid, Option.map_id]
    exact numeralValue?_of_digit (hds c List.mem_cons_self) _
  | true => rfl

end Digits

def pointed (decimals : List Char) : List Char :=
  if decimals.isEmpty then [] else '.' :: decimals

lemma isDigit_head?_pointed (ds : List Char) : ∀ c ∈ (pointed ds).head?, c.isDigit = false := by
  cases ds with
  | nil => exact fun c hc => nomatch hc
  | cons d ds =>
    intro c hc
    obtain rfl := Option.some.inj hc
    rfl

lemma decimalsValue?_pointed {ds : List Char} (hds : ∀ c ∈ ds, c.isDigit = true)
    (whole : List Char) :
    decimalsValue? whole (pointed ds) =
      some ((Nat.ofDigitChars 10 (whole ++ ds) 0 : ℚ) / 10 ^ ds.length) := by
  cases ds with
  | nil => simp [pointed, decimalsValue?]
  | cons d ds =>
    have hall : (d :: ds).all Char.isDigit = true := List.all_eq_true.mpr hds
    rw [pointed, List.isEmpty_cons, if_neg Bool.false_ne_true, decimalsValue?, hall]
    rfl

lemma numeralValue?_parts (negative : Bool) {whole ds : List Char} (hne : whole ≠ [])
    (hwhole : ∀ c ∈ whole, c.isDigit = true) (hds : ∀ c ∈ ds, c.isDigit = true) :
    numeralValue? (sign negative ++ whole ++ pointed ds) =
      some (signed negative ((Nat.ofDigitChars 10 (whole ++ ds) 0 : ℚ) / 10 ^ ds.length)) := by
  rw [numeralValue?_sign hne hwhole, magnitude?_append hne hwhole (isDigit_head?_pointed ds),
    decimalsValue?_pointed hds, Option.map_some]

lemma isDigit_of_mem_decimals {places n : ℕ} {c : Char}
    (h : c ∈ trimZeros (paddedDigits places n)) : c.isDigit = true :=
  isDigit_of_mem_paddedDigits (mem_of_mem_trimZeros h)

/-- The decimals that are cut off are zeros. -/
lemma ofDigitChars_decimals (places n : ℕ) :
    ∃ k, (trimZeros (paddedDigits places (n % 10 ^ places))).length + k = places ∧
      10 ^ k * Nat.ofDigitChars 10
        (digits (n / 10 ^ places) ++ trimZeros (paddedDigits places (n % 10 ^ places))) 0 = n := by
  obtain ⟨k, hk⟩ := trimZeros_append (paddedDigits places (n % 10 ^ places))
  refine ⟨k, ?_, ?_⟩
  · have hlength := congrArg List.length hk
    rwa [List.length_append, List.length_replicate, length_paddedDigits] at hlength
  · rw [← Nat.ofDigitChars_replicate_zero, ← Nat.ofDigitChars_append, List.append_assoc, hk,
      Nat.ofDigitChars_append, Nat.ofDigitChars_eq_ofDigitChars_zero, length_paddedDigits,
      ofDigitChars_paddedDigits, digits, Nat.ofDigitChars_ten_toDigits, Nat.mod_mod,
      Nat.div_add_mod]

lemma numeralValue?_numeral (negative : Bool) (places n : ℕ) :
    numeralValue? (numeral negative places n) = some (signed negative ((n : ℚ) / 10 ^ places)) := by
  have hne : digits (n / 10 ^ places) ≠ [] := Nat.toDigits_ne_nil
  have hwhole : ∀ c ∈ digits (n / 10 ^ places), c.isDigit = true := fun _ => isDigit_of_mem_digits
  have hdecimals : ∀ c ∈ trimZeros (paddedDigits places (n % 10 ^ places)), c.isDigit = true :=
    fun _ => isDigit_of_mem_decimals
  obtain ⟨k, hlength, hvalue⟩ := ofDigitChars_decimals places n
  refine (numeralValue?_parts (negative && n != 0) hne hwhole hdecimals).trans ?_
  generalize trimZeros (paddedDigits places (n % 10 ^ places)) = ds at *
  have hquotient : (Nat.ofDigitChars 10 (digits (n / 10 ^ places) ++ ds) 0 : ℚ) / 10 ^ ds.length =
      n / 10 ^ places := by
    have hcast : (10 : ℚ) ^ k * Nat.ofDigitChars 10 (digits (n / 10 ^ places) ++ ds) 0 = n := by
      exact_mod_cast hvalue
    have hpower : (10 : ℚ) ^ places = 10 ^ ds.length * 10 ^ k := by rw [← hlength, pow_add]
    rw [← hcast, hpower]
    field_simp
  rw [hquotient]
  by_cases hn : n = 0
  · cases negative <;> simp [hn, signed]
  · rw [bne_iff_ne.mpr hn, Bool.and_true]

lemma isRounded_of_exact {places : ℕ} {q : ℚ} {n : ℕ} (h : q * 10 ^ places = n) :
    IsRounded places q q := by
  have hpower : (10 : ℚ) ^ places ≠ 0 := pow_ne_zero places (by norm_num)
  refine ⟨n, ?_, ?_⟩
  · rw [Int.cast_natCast, ← h, mul_div_cancel_right₀ q hpower]
  · rw [h]
    exact isNearest_self n

lemma isRounded_scaled_places (places mantissa : ℕ) (exponent : ℤ) :
    IsRounded places (mantissa * 2 ^ exponent) ((scaled places mantissa exponent : ℚ) / 10 ^ places) := by
  have hden := Binary64.fraction_den_pos mantissa exponent
  rw [← Binary64.cast_fraction, scaled]
  generalize Binary64.fraction mantissa exponent = f at *
  refine ⟨roundDiv (f.1 * 10 ^ places) f.2, by rw [Int.cast_natCast], ?_⟩
  have hround := roundDiv_isNearest (f.1 * 10 ^ places) hden
  rwa [Nat.cast_mul, Nat.cast_pow, Nat.cast_ofNat, mul_div_right_comm] at hround

/-- No place is lost that is not worth looking at: with all places of the unit the number is exact. -/
lemma isRounded_scaled (places mantissa : ℕ) (exponent : ℤ) :
    let used := usedPlaces places exponent
    IsRounded places (mantissa * 2 ^ exponent)
      ((scaled used mantissa exponent : ℚ) / 10 ^ used) := by
  rcases Nat.le_total places (-exponent).toNat with hfew | hmany
  · rw [usedPlaces, Nat.min_eq_left hfew]
    exact isRounded_scaled_places places mantissa exponent
  · have hden := Binary64.fraction_den_pos mantissa exponent
    have hden' : ((Binary64.fraction mantissa exponent).2 : ℚ) ≠ 0 := by exact_mod_cast hden.ne'
    have hcast := Binary64.cast_fraction mantissa exponent
    have hunit : (Binary64.fraction mantissa exponent).2 = 2 ^ (-exponent).toNat := rfl
    simp only [scaled]
    generalize Binary64.fraction mantissa exponent = f at *
    rw [← hcast, usedPlaces, Nat.min_eq_right hmany]
    set used := (-exponent).toNat
    have hten : (10 : ℚ) ^ used = 5 ^ used * f.2 := by
      rw [hunit, Nat.cast_pow, Nat.cast_ofNat, ← mul_pow]
      norm_num
    have hexact : roundDiv (f.1 * 10 ^ used) f.2 = f.1 * 5 ^ used := by
      have hfactor : f.1 * 10 ^ used = f.1 * 5 ^ used * f.2 := by
        rw [hunit, Nat.mul_assoc, ← Nat.mul_pow]
      rw [hfactor, roundDiv_mul_right _ hden]
    have hvalue : ((f.1 * 5 ^ used : ℕ) : ℚ) / 10 ^ used = f.1 / f.2 := by
      rw [hten, Nat.cast_mul, Nat.cast_pow, Nat.cast_ofNat]
      field_simp
    rw [hexact, hvalue]
    refine isRounded_of_exact (n := f.1 * 5 ^ used * 10 ^ (places - used)) ?_
    have hpower : (10 : ℚ) ^ places = 10 ^ used * 10 ^ (places - used) := by
      rw [← pow_add, Nat.add_sub_cancel' hmany]
    rw [hpower, hten]
    push_cast
    field_simp

lemma IsRounded.signed {places : ℕ} {q r : ℚ} (h : IsRounded places q r) (negative : Bool) :
    IsRounded places (signed negative q) (signed negative r) := by
  cases negative with
  | false => exact h
  | true => exact h.neg

/-- A double that is a number is written as the numeral of what it is rounded to, and one that is none
as no numeral. -/
theorem numeralValue?_fixed (places : ℕ) (x : Float) :
    Option.Rel (IsRounded places) (Binary64.rational? x) (numeralValue? (fixed places x)) := by
  unfold Binary64.rational? fixed
  cases Binary64.value x with
  | nan => exact .none
  | infinite negative => cases negative <;> exact .none
  | finite negative mantissa exponent =>
    simp only
    rw [numeralValue?_numeral]
    exact .some ((isRounded_scaled places mantissa exponent).signed negative)

end Lindenmayer.Decimal
