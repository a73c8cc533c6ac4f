import Lindenmayer.Proofs.Binary64.Equality
import Lindenmayer.Proofs.Decimal.Form

/-! What is left of a number with all its places when the zeros at its end, the point and the sign of a
zero are stripped. It is the one numeral of the number that is left. -/

namespace Lindenmayer.Decimal

-- The core power, whatever else is imported.
attribute [local instance (2000)] instPowNat

open Binary64 (signed unitsOf rational? rational?_eq)

section Strip

def printedDigits (negative : Bool) (places n : ℕ) : List Char :=
  sign negative ++ digits (n / 10 ^ places) ++
    if places = 0 then [] else '.' :: paddedDigits places (n % 10 ^ places)

/-- A double with all its places, and with its sign also on a zero. -/
def printed (places : ℕ) (x : Float) : List Char :=
  match Binary64.value x with
  | .nan => "nan".toList
  | .infinite negative => infinite negative
  | .finite negative mantissa exponent =>
    printedDigits negative places (scaled places mantissa exponent)

/-- Behind a point the zeros at the end go, and the point if then it is last; and a zero has no sign. -/
def stripped (s : List Char) : List Char :=
  let s := if '.' ∈ s then (s.rdropWhile (· == '0')).rdropWhile (· == '.') else s
  let s := if s = ['-', '0'] then ['0'] else s
  if s.isEmpty then ['0'] else s

lemma rdropWhile_append_cons {p : Char → Bool} {c : Char} (hc : p c = false) (s t : List Char) :
    (s ++ c :: t).rdropWhile p = s ++ c :: t.rdropWhile p := by
  induction t using List.reverseRecOn with
  | nil => exact List.rdropWhile_concat_neg p s c (by rw [hc]; exact Bool.false_ne_true)
  | append_singleton t d ih =>
    rw [← List.cons_append, ← List.append_assoc, List.rdropWhile_concat, List.rdropWhile_concat, ih]
    split
    · rfl
    · exact List.append_assoc s (c :: t) [d]

lemma rdropWhile_of_notMem {c : Char} {s : List Char} (h : c ∉ s) : s.rdropWhile (· == c) = s := by
  apply List.rdropWhile_eq_self_iff.mpr
  intro hne hlast
  exact h (beq_iff_eq.mp hlast ▸ List.getLast_mem hne)

variable {front ds : List Char}

lemma strip_ends (hfront : '.' ∉ front) (hds : ∀ c ∈ ds, c.isDigit = true) :
    ((front ++ '.' :: ds).rdropWhile (· == '0')).rdropWhile (· == '.') =
      front ++ pointed (trimZeros ds) := by
  have htrim : ds.rdropWhile (· == '0') = trimZeros ds := rfl
  have hpoint : '.' ∉ trimZeros ds := fun h => absurd (hds '.' (mem_of_mem_trimZeros h)) (by decide)
  rw [rdropWhile_append_cons (by rfl), htrim]
  generalize trimZeros ds = decimals at hpoint
  obtain rfl | ⟨decimals, c, rfl⟩ := List.eq_nil_or_concat' decimals
  · rw [List.rdropWhile_concat_pos _ _ _ (by rfl), rdropWhile_of_notMem hfront]
    exact (List.append_nil front).symm
  · have hc : c ≠ '.' := by
      rintro rfl
      exact hpoint (by simp)
    have hpointed : pointed (decimals ++ [c]) = '.' :: (decimals ++ [c]) := if_neg (by simp)
    rw [hpointed, ← List.cons_append, ← List.append_assoc,
      List.rdropWhile_concat_neg _ _ _ (by simpa using hc)]

lemma unsigned_zero (negative : Bool) (places n : ℕ) :
    (let s := sign negative ++ digits (n / 10 ^ places) ++
        pointed (trimZeros (paddedDigits places (n % 10 ^ places)))
      if s = ['-', '0'] then ['0'] else s) = numeral negative places n := by
  rcases Nat.eq_zero_or_pos n with rfl | hpos
  · rw [numeral_zero, Nat.zero_div, Nat.zero_mod, trimZeros_paddedDigits_zero]
    cases negative <;> rfl
  · have hsign : (negative && n != 0) = negative := by
      rw [bne_iff_ne.mpr hpos.ne', Bool.and_true]
    have hnumeral := isCanonical_numeral negative places n
    rw [numeral, hsign] at hnumeral ⊢
    exact if_neg hnumeral.2

lemma point_notMem (negative : Bool) (n : ℕ) : '.' ∉ sign negative ++ digits n := by
  rw [List.mem_append, not_or]
  exact ⟨fun h => absurd (mem_sign h) (by decide), fun h => absurd (isDigit_of_mem_digits h) (by decide)⟩

lemma stripped_printedDigits (negative : Bool) (places n : ℕ) :
    stripped (printedDigits negative places n) = numeral negative places n := by
  have hfront := point_notMem negative (n / 10 ^ places)
  have hends : (if '.' ∈ printedDigits negative places n then
        ((printedDigits negative places n).rdropWhile (· == '0')).rdropWhile (· == '.')
      else printedDigits negative places n) =
      sign negative ++ digits (n / 10 ^ places) ++
        pointed (trimZeros (paddedDigits places (n % 10 ^ places))) := by
    unfold printedDigits
    rcases Nat.eq_zero_or_pos places with rfl | hpos
    · rw [if_pos rfl, List.append_nil, if_neg hfront]
      exact (List.append_nil _).symm
    · rw [if_neg hpos.ne', if_pos (by simp), strip_ends hfront fun c => isDigit_of_mem_paddedDigits]
  have hne := (isCanonical_numeral negative places n).ne_nil
  have hzero := unsigned_zero negative places n
  unfold stripped
  rw [hends]
  dsimp only at hzero ⊢
  rw [hzero, if_neg (by rwa [List.isEmpty_iff])]

end Strip

lemma numeral_usedPlaces (negative : Bool) (places mantissa : ℕ) (exponent : ℤ) :
    let used := usedPlaces places exponent
    numeral negative used (scaled used mantissa exponent) =
      numeral negative places (scaled places mantissa exponent) :=
  numeral_eq_of_value (congrArg (signed negative)
    ((isRounded_scaled places mantissa exponent).unique (isRounded_scaled_places places mantissa exponent)))

lemma stripped_printed (places : ℕ) (x : Float) : stripped (printed places x) = fixed places x := by
  unfold printed fixed
  cases Binary64.value x with
  | nan => rfl
  | infinite negative => cases negative <;> rfl
  | finite negative mantissa exponent =>
    exact (stripped_printedDigits _ _ _).trans (numeral_usedPlaces _ _ _ _).symm

section Text

variable {places : ℕ} {x y : Float} {q r : ℚ}

/-- A zero is printed without its sign. -/
lemma fixed_eq_stripped (hx : x.isFinite = true) :
    fixed places x = stripped (printed places (if x == 0 then 0 else x)) := by
  rw [stripped_printed]
  split
  · next hzero =>
    have hunits := (Binary64.beq_iff_unitsOf (Binary64.isNaN_of_isFinite hx) rfl).mp hzero
    exact fixed_eq_of_unitsOf hx rfl hunits
  · rfl

def decimalsOf (t : List Char) : List Char := (t.dropWhile (· != '.')).tail

lemma decimalsOf_append {front ds : List Char} (hfront : '.' ∉ front) :
    decimalsOf (front ++ pointed ds) = ds := by
  have hall : ∀ c ∈ front, (c != '.') = true := fun c hc => bne_iff_ne.mpr fun h => hfront (h ▸ hc)
  rw [decimalsOf, List.dropWhile_append_of_pos hall]
  cases ds <;> rfl

lemma getLast?_append_pointed {front ds : List Char} (hfront : '.' ∉ front)
    (h : '.' ∈ front ++ pointed ds) : (front ++ pointed ds).getLast? = ds.getLast? := by
  have hne : ds ≠ [] := by
    rintro rfl
    exact hfront ((List.append_nil front) ▸ h)
  obtain ⟨d, ds, rfl⟩ := List.exists_cons_of_ne_nil hne
  change (front ++ '.' :: d :: ds).getLast? = _
  rw [List.getLast?_append_of_ne_nil _ (List.cons_ne_nil _ _), List.getLast?_cons_cons]

/-- The text of a number that has no more than so many decimals. -/
structure IsTextOf (places : ℕ) (q : ℚ) (text : List Char) : Prop where
  unique : ∀ t, IsCanonical t ∧ numeralValue? t = some q ↔ t = text
  length_le : (decimalsOf text).length ≤ places
  ending : '.' ∈ text → text.getLast? ≠ some '0' ∧ text.getLast? ≠ some '.'
  whole : ∀ m : ℤ, q = m → text = sign (m < 0) ++ digits m.natAbs
  zero : q = 0 → text = ['0']

lemma numeralValue?_whole (m : ℤ) :
    IsCanonical (sign (m < 0) ++ digits m.natAbs) ∧
      numeralValue? (sign (m < 0) ++ digits m.natAbs) = some (m : ℚ) := by
  have hnumeral : sign (m < 0) ++ digits m.natAbs = numeral (m < 0) 0 m.natAbs := by
    have hsign : (decide (m < 0) && m.natAbs != 0) = decide (m < 0) := by
      rw [Bool.and_eq_left_iff_imp, decide_eq_true_iff, bne_iff_ne]
      omega
    rw [numeral, hsign, Nat.pow_zero, Nat.div_one]
    exact (List.append_nil _).symm
  rw [hnumeral, numeralValue?_numeral, Option.some_inj, pow_zero, div_one, Nat.cast_natAbs]
  refine ⟨isCanonical_numeral _ _ _, ?_⟩
  rcases lt_or_ge m 0 with hm | hm
  · rw [decide_eq_true hm, abs_of_neg hm]
    simp [signed]
  · rw [decide_eq_false (not_lt.mpr hm), abs_of_nonneg hm]
    rfl

lemma isTextOf_numeral {negative : Bool} {k n : ℕ} (hk : k ≤ places)
    (h : numeralValue? (numeral negative k n) = some q) :
    IsTextOf places q (numeral negative k n) := by
  have hunique : ∀ t, IsCanonical t ∧ numeralValue? t = some q ↔ t = numeral negative k n := by
    intro t
    constructor
    · rintro ⟨ht, hvalue⟩
      exact ht.eq_of_numeralValue? (isCanonical_numeral negative k n) (hvalue.trans h.symm)
    · rintro rfl
      exact ⟨isCanonical_numeral negative k n, h⟩
  have hwhole : ∀ m : ℤ, q = m → numeral negative k n = sign (m < 0) ++ digits m.natAbs :=
    fun m hm => ((hunique _).mp (hm ▸ numeralValue?_whole m)).symm
  obtain ⟨zeros, hlength, -⟩ := ofDigitChars_decimals k n
  have hfront := point_notMem (negative && n != 0) (n / 10 ^ k)
  have hdigits : ∀ c ∈ trimZeros (paddedDigits k (n % 10 ^ k)), c.isDigit = true :=
    fun _ => isDigit_of_mem_decimals
  have htrailing := getLast?_trimZeros (paddedDigits k (n % 10 ^ k))
  refine ⟨hunique, ?_, fun hmem => ?_, hwhole, fun hq => hwhole 0 (hq.trans Int.cast_zero.symm)⟩
  · have hdecimals : decimalsOf (numeral negative k n) = trimZeros (paddedDigits k (n % 10 ^ k)) :=
      decimalsOf_append hfront
    rw [hdecimals]
    omega
  · have hlast := getLast?_append_pointed hfront hmem
    refine ⟨fun h => htrailing (hlast.symm.trans h), fun h => ?_⟩
    have hpoint := hdigits '.' (List.mem_of_getLast? (hlast.symm.trans h))
    exact absurd hpoint (by decide)

lemma isTextOf_fixed (hx : x.isFinite = true) (hq : numeralValue? (fixed places x) = some q) :
    IsTextOf places q (fixed places x) := by
  unfold fixed at hq ⊢
  obtain ⟨r, hr⟩ := (Binary64.isFinite_iff x).mp hx
  unfold rational? at hr
  cases hvalue : Binary64.value x with
  | nan | infinite =>
    rw [hvalue] at hr
    cases hr
  | finite negative mantissa exponent =>
    rw [hvalue] at hq
    exact isTextOf_numeral (min_le_left _ _) hq

lemma isRounded_iff (h : IsRounded places q r) (s : ℚ) : IsRounded places q s ↔ s = r :=
  ⟨fun hs => hs.unique h, fun hs => hs ▸ h⟩

lemma fixed?_eq (places : ℕ) (x : Float) :
    fixed? places x = if places < 2 ^ 31 then .ok (fixed places x)
      else .error (if places < 2 ^ 63 then .tooBig else .tooManyDigits) := by
  change Except.map _ (if 2 ^ 63 ≤ places then _ else if 2 ^ 31 ≤ places then _ else _) = _
  rcases Nat.lt_or_ge places (2 ^ 31) with hfits | hbig
  · rw [if_neg (by omega), if_neg (by omega), if_pos hfits]
    rfl
  · rw [if_neg (not_lt.mpr hbig)]
    rcases Nat.lt_or_ge places (2 ^ 63) with hlow | hhigh
    · rw [if_neg (not_le.mpr hlow), if_pos hbig, if_pos hlow]
      rfl
    · rw [if_pos hhigh, if_neg (not_lt.mpr hhigh)]
      rfl

lemma fixed?_eq_ok (hplaces : places < 2 ^ 31) (x : Float) : fixed? places x = .ok (fixed places x) := by
  rw [fixed?_eq, if_pos hplaces]

lemma exists_fixed?_eq_ok_iff : (∃ t, fixed? places x = .ok t) ↔ places < 2 ^ 31 := by
  constructor
  · rintro ⟨t, h⟩
    by_contra hbig
    rw [fixed?_eq, if_neg hbig] at h
    cases h
  · exact fun hplaces => ⟨_, fixed?_eq_ok hplaces x⟩

/-- Formatting writes the one numeral, in the form of a numeral, of what the double is rounded to. So two
doubles have one text just if they are rounded to one number, and the text of the larger says no less. -/
theorem fixed?_writes_numeral (hx : x.isFinite = true) (hy : y.isFinite = true) :
    ((∃ s, fixed? places x = .ok s) ↔ places < 2 ^ 31) ∧
    (places < 2 ^ 31 →
      ∃ (a b q r : ℚ) (s t : List Char), rational? x = some a ∧ rational? y = some b ∧
        (∀ q', IsRounded places a q' ↔ q' = q) ∧ (∀ r', IsRounded places b r' ↔ r' = r) ∧
        fixed? places x = .ok s ∧ fixed? places y = .ok t ∧
        s = stripped (printed places (if x == 0 then 0 else x)) ∧
        IsTextOf places q s ∧ IsTextOf places r t ∧ (s = t ↔ q = r) ∧ (x ≤ y → q ≤ r)) := by
  refine ⟨exists_fixed?_eq_ok_iff, fun hplaces => ?_⟩
  obtain ⟨q, hq, hqx⟩ := isRounded_fixed places hx
  obtain ⟨r, hr, hry⟩ := isRounded_fixed places hy
  have hs := isTextOf_fixed hx hq
  have ht := isTextOf_fixed hy hr
  refine ⟨_, _, q, r, _, _, rational?_eq hx, rational?_eq hy, isRounded_iff hqx, isRounded_iff hry,
    fixed?_eq_ok hplaces x, fixed?_eq_ok hplaces y, fixed_eq_stripped hx, hs, ht, ?_, fun hxy => ?_⟩
  · constructor
    · intro h
      rw [h, hr, Option.some_inj] at hq
      exact hq.symm
    · rintro rfl
      exact fixed_eq_of_numeralValue? hq hr
  · have hunits := Binary64.unitsOf_mono (Binary64.isNaN_of_isFinite hx) (Binary64.isNaN_of_isFinite hy) hxy
    have hscale : (0 : ℚ) ≤ 2 ^ 1074 := by positivity
    exact hqx.mono hry (div_le_div_of_nonneg_right (by exact_mod_cast hunits) hscale)

theorem fixed?_writes_numeral_halves :
    (5 / 2 : Float).isFinite = true ∧ (-1 / 2 : Float).isFinite = true ∧
      fixed? (0 : ℕ) (5 / 2) = .ok ['2'] ∧ fixed? (0 : ℕ) (-1 / 2) = .ok ['0'] ∧
      IsTextOf 0 2 ['2'] ∧ IsTextOf 0 0 ['0'] := by
  have hfinite : (5 / 2 : Float).isFinite = true := rfl
  have hfinite' : (-1 / 2 : Float).isFinite = true := rfl
  have hs : fixed 0 (5 / 2) = ['2'] := by decide +kernel
  have ht : fixed 0 (-1 / 2) = ['0'] := by decide +kernel
  have htwo : numeralValue? ['2'] = some 2 := by decide +kernel
  have hnone : numeralValue? ['0'] = some 0 := by decide +kernel
  obtain ⟨-, -, q, r, s, t, -, -, -, -, hx, hy, -, hq, hr, -⟩ :=
    (@fixed?_writes_numeral 0 (5 / 2) (-1 / 2) hfinite hfinite').2 (by decide)
  have hs' : s = ['2'] := (Except.ok.inj (hx.symm.trans (fixed?_eq_ok (by decide) _))).trans hs
  have ht' : t = ['0'] := (Except.ok.inj (hy.symm.trans (fixed?_eq_ok (by decide) _))).trans ht
  subst hs' ht'
  have hq2 : q = 2 := Option.some.inj (((hq.unique _).mpr rfl).2.symm.trans htwo)
  have hr0 : r = 0 := Option.some.inj (((hr.unique _).mpr rfl).2.symm.trans hnone)
  exact ⟨hfinite, hfinite', hx, hy, hq2 ▸ hq, hr0 ▸ hr⟩

/-- With too many places there is no text at all. -/
theorem fixed?_no_text :
    (1 : Float).isFinite = true ∧ (0 : ℤ) ≤ 2147483648 ∧ ∀ t, fixed? 2147483648 1 ≠ .ok t := by
  refine ⟨rfl, by decide, fun t h => ?_⟩
  cases h

end Text

end Lindenmayer.Decimal
