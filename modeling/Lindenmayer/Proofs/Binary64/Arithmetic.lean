import Lindenmayer.Proofs.Binary64.Normal

/-! Sums and products of doubles. Each is the exact one, rounded, and where that is too large it is
infinite; so none is a number unless both parts are, and each grows with its parts. -/

namespace Lindenmayer.Binary64

open Float.Model (UnpackedFloat Format)
open Float.Model.UnpackedFloat

lemma apply_neg (s : Sign) (z : ℤ) : (-s).apply z = -s.apply z := by
  cases s
  · exact (neg_neg z).symm
  · rfl

namespace Denotes

variable {u v : UnpackedFloat} {y z : ℤ}

lemma nearest_eq (h : Denotes u z) (k : ℕ) : nearest k (z * 2 ^ k) = z :=
  h.units_eq ▸ nearest_units k h.canonical h.isFinite

lemma nearest_zero_eq (h : Denotes u z) : nearest 0 z = z := by
  have heq := h.nearest_eq 0
  rwa [pow_zero, mul_one] at heq

lemma neg (h : Denotes u z) : Denotes u.neg (-z) := by
  obtain ⟨hcanonical, hfinite, rfl⟩ := h
  cases u with
  | infinity | notANumber => cases hfinite
  | zero => exact ⟨trivial, rfl, rfl⟩
  | finite s m e hm => exact ⟨hcanonical, rfl, apply_neg s _⟩

end Denotes

lemma apply_shiftLeft (s : Sign) (m : ℕ) {e f : ℤ} (hf : -1074 ≤ f) (hle : f ≤ e) :
    s.apply (m <<< (e - f).toNat : ℕ) * 2 ^ (f + 1074).toNat =
      s.apply (m * 2 ^ (e + 1074).toNat : ℕ) := by
  have hexponent : (e + 1074).toNat = (e - f).toNat + (f + 1074).toNat := by omega
  rw [Nat.shiftLeft_eq, hexponent, Nat.pow_add, ← Nat.mul_assoc]
  cases s <;> simp [Sign.apply]

lemma denotes_add {u v : UnpackedFloat} {y z : ℤ} (hu : Denotes u y) (hv : Denotes v z) :
    Denotes (UnpackedFloat.add Format.binary64 u v) (nearest 0 (y + z)) := by
  cases u with
  | infinity | notANumber => cases hu.isFinite
  | zero s =>
    obtain rfl : 0 = y := hu.units_eq
    rw [zero_add, hv.nearest_zero_eq]
    cases v with
    | infinity | notANumber => cases hv.isFinite
    | zero t =>
      obtain rfl : 0 = z := hv.units_eq
      cases s <;> cases t <;> exact ⟨trivial, rfl, rfl⟩
    | finite t n f hn => exact hv
  | finite s m e hm =>
    cases v with
    | infinity | notANumber => cases hv.isFinite
    | zero t =>
      obtain rfl : 0 = z := hv.units_eq
      rw [add_zero, hu.nearest_zero_eq]
      exact hu
    | finite t n f hn =>
      have he := hu.canonical.2.1
      have hf := hv.canonical.2.1
      have hmin : -1074 ≤ min e f := le_min he hf
      rw [← hu.units_eq, ← hv.units_eq, units, units, ← apply_shiftLeft s m hmin (min_le_left e f),
        ← apply_shiftLeft t n hmin (min_le_right e f), ← add_mul]
      exact denotes_normalize (by omega) .positive

lemma sub_eq_add_neg (u v : UnpackedFloat) :
    UnpackedFloat.sub Format.binary64 u v = UnpackedFloat.add Format.binary64 u v.neg := by
  cases u with
  | infinity | notANumber | zero => cases v <;> rfl
  | finite s m e hm =>
    cases v with
    | infinity | notANumber | zero => rfl
    | finite t n f hn =>
      simp only [UnpackedFloat.sub, UnpackedFloat.add, UnpackedFloat.neg, apply_neg,
        Int.sub_eq_add_neg]

lemma apply_mul (s t : Sign) (m n : ℕ) : (s * t).apply (m * n : ℕ) = s.apply m * t.apply n := by
  rw [Nat.cast_mul]
  cases s <;> cases t
  · exact (neg_mul_neg _ _).symm
  · exact (neg_mul _ _).symm
  · exact (mul_neg _ _).symm
  · rfl

lemma denotes_mul {u v : UnpackedFloat} {y z : ℤ} (hu : Denotes u y) (hv : Denotes v z) :
    Denotes (UnpackedFloat.mul Format.binary64 u v) (nearest 1074 (y * z)) := by
  cases u with
  | infinity | notANumber => cases hu.isFinite
  | zero s =>
    obtain rfl : 0 = y := hu.units_eq
    rw [zero_mul, nearest_zero]
    cases v with
    | infinity | notANumber => cases hv.isFinite
    | zero | finite => exact ⟨trivial, rfl, rfl⟩
  | finite s m e hm =>
    cases v with
    | infinity | notANumber => cases hv.isFinite
    | zero t =>
      obtain rfl : 0 = z := hv.units_eq
      rw [mul_zero, nearest_zero]
      exact ⟨trivial, rfl, rfl⟩
    | finite t n f hn =>
      obtain ⟨-, he, hmdigits⟩ := hu.canonical
      obtain ⟨-, hf, hndigits⟩ := hv.canonical
      have hne : m * n ≠ 0 := (Nat.mul_pos hm hn).ne'
      have htarget : e + f ≤ target (m * n) (e + f) := by
        -- A product with a factor of fifty-three digits has as many, and the others are small.
        unfold target
        rcases hmdigits with hmdigits | rfl
        · have hlog := (Nat.le_log2 hne).mpr (hmdigits.trans (Nat.le_mul_of_pos_right m hn))
          omega
        · rcases hndigits with hndigits | rfl
          · have hlog := (Nat.le_log2 hne).mpr (hndigits.trans (Nat.le_mul_of_pos_left n hm))
            omega
          · omega
      have hproduct : m * 2 ^ (e + 1074).toNat * (n * 2 ^ (f + 1074).toNat) =
          m * n * 2 ^ ((e + 1074).toNat + (f + 1074).toNat) := by
        rw [Nat.pow_add, Nat.mul_mul_mul_comm]
      rw [← hu.units_eq, ← hv.units_eq, units, units, ← apply_mul, hproduct, nearest_apply]
      exact denotes_roundWithAccuracy hne _ (by omega) htarget

lemma isFinite_of_add {u v : UnpackedFloat}
    (h : (UnpackedFloat.add Format.binary64 u v).isFinite = true) :
    u.isFinite = true ∧ v.isFinite = true := by
  cases u with
  | notANumber => cases h
  | infinity s =>
    cases v with
    | notANumber | zero | finite => cases h
    | infinity t => cases s <;> cases t <;> cases h
  | zero | finite =>
    cases v with
    | notANumber | infinity => cases h
    | zero | finite => exact ⟨rfl, rfl⟩

lemma isFinite_of_mul {u v : UnpackedFloat}
    (h : (UnpackedFloat.mul Format.binary64 u v).isFinite = true) :
    u.isFinite = true ∧ v.isFinite = true := by
  cases u with
  | notANumber => cases h
  | infinity s => cases v <;> cases h
  | zero | finite =>
    cases v with
    | notANumber | infinity => cases h
    | zero | finite => exact ⟨rfl, rfl⟩

lemma isFinite_neg (u : UnpackedFloat) : u.neg.isFinite = u.isFinite := by
  cases u <;> rfl

lemma isFinite_of_pack {u : UnpackedFloat} (h : (Float.Model.pack u).unpack.isFinite = true) :
    u.isFinite = true := by
  cases u with
  | infinity s =>
    rw [unpack_pack (u := .infinity s) trivial] at h
    cases h
  | notANumber =>
    rw [unpack_pack (u := .notANumber) trivial] at h
    cases h
  | zero | finite => rfl

lemma Denotes.pack {u : UnpackedFloat} {z : ℤ} (h : Denotes u z) :
    (Float.Model.pack u).unpack.isNaN = false ∧ units (Float.Model.pack u).unpack = capped z := by
  rw [unpack_pack h.canonical, units_stored h.canonical, h.units_eq]
  refine ⟨?_, rfl⟩
  have hfinite := h.isFinite
  cases u with
  | infinity | notANumber => cases hfinite
  | zero => rfl
  | finite s m e hm =>
    rw [stored]
    split <;> rfl

lemma isNaN_pack_add {u v : UnpackedFloat} (hu : Canonical u) (hnumber : u.isNaN = false)
    (hv : Canonical v) (hfinite : v.isFinite = true) :
    (Float.Model.pack (UnpackedFloat.add Format.binary64 u v)).unpack.isNaN = false := by
  have hdenotes : Denotes v (units v) := ⟨hv, hfinite, rfl⟩
  cases u with
  | notANumber => cases hnumber
  | infinity s =>
    have hsum : UnpackedFloat.add Format.binary64 (.infinity s) v = .infinity s := by
      cases v with
      | infinity | notANumber => cases hfinite
      | zero | finite => rfl
    rw [hsum, unpack_pack (u := .infinity s) trivial]
    rfl
  | zero s => exact (denotes_add (u := .zero s) ⟨trivial, rfl, rfl⟩ hdenotes).pack.1
  | finite s m e hm => exact (denotes_add (u := .finite s m e hm) ⟨hu, rfl, rfl⟩ hdenotes).pack.1

lemma rank_zero_lt_iff {u : UnpackedFloat} (s : Sign) : rank (.zero s) < rank u ↔ 0 < units u := by
  have htop := overflow_pos
  cases u with
  | infinity t => cases t <;> simp only [rank, Prod.Lex.toLex_lt_toLex, units, Sign.apply] <;> omega
  | notANumber | zero => simp [rank, units]
  | finite t m e hm =>
    have hpos : 0 < m * 2 ^ (e + 1074).toNat := Nat.mul_pos hm (Nat.two_pow_pos _)
    cases t <;> simp only [rank, Prod.Lex.toLex_lt_toLex, units, Sign.apply] <;> omega

lemma nearest_zero_pos_iff {z : ℤ} : 0 < nearest 0 z ↔ 0 < z := by
  have hone : nearest 0 1 = 1 := by decide +kernel
  constructor
  · intro h
    by_contra hz
    have hle := nearest_mono 0 (not_lt.mp hz)
    rw [nearest_zero] at hle
    omega
  · intro h
    have hle := nearest_mono 0 (Int.add_one_le_of_lt h)
    rw [zero_add, hone] at hle
    omega

def unitsOf (x : Float) : ℤ := units x.toModel.unpack

section Operations

variable {x y z : Float}

lemma isNaN_of_isFinite (h : x.isFinite = true) : x.isNaN = false := by
  change x.toModel.unpack.isNaN = false
  have hfinite : x.toModel.unpack.isFinite = true := h
  cases hx : x.toModel.unpack with
  | infinity | zero | finite => rfl
  | notANumber =>
    rw [hx] at hfinite
    cases hfinite

lemma unitsOf_mono (hx : x.isNaN = false) (hy : y.isNaN = false) (h : x ≤ y) :
    unitsOf x ≤ unitsOf y :=
  (settled_unpack x).units_mono (settled_unpack y) ((le_iff_rank hx hy).mp h)

lemma abs_unitsOf_lt_iff (hx : x.isNaN = false) : |unitsOf x| < overflow ↔ x.isFinite = true :=
  (settled_unpack x).abs_units_lt_iff hx

lemma isFinite_of_unitsOf_eq_zero (hx : x.isNaN = false) (h : unitsOf x = 0) : x.isFinite = true := by
  rw [← abs_unitsOf_lt_iff hx, h, abs_zero]
  exact Int.natCast_pos.mpr overflow_pos

lemma isFinite_of_unitsOf (hx : x.isFinite = true) (hz : z.isFinite = true) (hy : y.isNaN = false)
    (hxy : unitsOf x ≤ unitsOf y) (hyz : unitsOf y ≤ unitsOf z) : y.isFinite = true := by
  rw [← abs_unitsOf_lt_iff hy, abs_lt]
  have hlow := (abs_lt.mp ((abs_unitsOf_lt_iff (isNaN_of_isFinite hx)).mpr hx)).1
  have hhigh := (abs_lt.mp ((abs_unitsOf_lt_iff (isNaN_of_isFinite hz)).mpr hz)).2
  omega

lemma denotes_unpack (hx : x.isFinite = true) : Denotes x.toModel.unpack (unitsOf x) :=
  ⟨canonical_unpack x, hx, rfl⟩

lemma isFinite_add (h : (x + y).isFinite = true) : x.isFinite = true ∧ y.isFinite = true :=
  isFinite_of_add (isFinite_of_pack h)

lemma isFinite_sub (h : (x - y).isFinite = true) : x.isFinite = true ∧ y.isFinite = true := by
  have hadd := sub_eq_add_neg x.toModel.unpack y.toModel.unpack ▸ isFinite_of_pack h
  obtain ⟨hx, hy⟩ := isFinite_of_add hadd
  exact ⟨hx, (isFinite_neg _).symm.trans hy⟩

lemma isFinite_mul (h : (x * y).isFinite = true) : x.isFinite = true ∧ y.isFinite = true :=
  isFinite_of_mul (isFinite_of_pack h)

lemma unitsOf_add (hx : x.isFinite = true) (hy : y.isFinite = true) :
    (x + y).isNaN = false ∧ unitsOf (x + y) = capped (nearest 0 (unitsOf x + unitsOf y)) :=
  (denotes_add (denotes_unpack hx) (denotes_unpack hy)).pack

lemma unitsOf_sub (hx : x.isFinite = true) (hy : y.isFinite = true) :
    (x - y).isNaN = false ∧ unitsOf (x - y) = capped (nearest 0 (unitsOf x - unitsOf y)) := by
  have hsub := denotes_add (denotes_unpack hx) (denotes_unpack hy).neg
  rw [← sub_eq_add_neg] at hsub
  exact hsub.pack

lemma unitsOf_mul (hx : x.isFinite = true) (hy : y.isFinite = true) :
    (x * y).isNaN = false ∧ unitsOf (x * y) = capped (nearest 1074 (unitsOf x * unitsOf y)) :=
  (denotes_mul (denotes_unpack hx) (denotes_unpack hy)).pack

lemma isNaN_add (hx : x.isNaN = false) (hy : y.isFinite = true) : (x + y).isNaN = false :=
  isNaN_pack_add (canonical_unpack x) hx (canonical_unpack y) hy

lemma isNaN_sub (hx : x.isNaN = false) (hy : y.isFinite = true) : (x - y).isNaN = false := by
  have hneg := (denotes_unpack hy).neg
  have hsum := isNaN_pack_add (canonical_unpack x) hx hneg.canonical hneg.isFinite
  rw [← sub_eq_add_neg] at hsum
  exact hsum

lemma capped_nearest_mono (k : ℕ) {a b : ℤ} (h : a ≤ b) :
    capped (nearest k a) ≤ capped (nearest k b) := by
  have hnearest := nearest_mono k h
  unfold capped
  omega

lemma capped_nearest_zero (k : ℕ) : capped (nearest k 0) = 0 := by
  rw [nearest_zero, capped_zero]

lemma capped_unitsOf (hx : x.isFinite = true) : capped (unitsOf x) = unitsOf x := by
  have habs := abs_lt.mp ((abs_unitsOf_lt_iff (isNaN_of_isFinite hx)).mpr hx)
  unfold capped
  omega

lemma unitsOf_zero : unitsOf 0 = 0 := rfl

lemma unitsOf_one : unitsOf 1 = 2 ^ 1074 := by
  decide +kernel

/-- A sum stays between its ends while the second part goes up from zero, or down. -/
lemma isFinite_add_of_le (hz : (x + z).isFinite = true) (hy : y.isFinite = true)
    (h : 0 ≤ unitsOf y ∧ unitsOf y ≤ unitsOf z ∨ unitsOf z ≤ unitsOf y ∧ unitsOf y ≤ 0) :
    (x + y).isFinite = true := by
  obtain ⟨hx, hz'⟩ := isFinite_add hz
  obtain ⟨hnumber, hsum⟩ := unitsOf_add hx hy
  have hend := (unitsOf_add hx hz').2
  have hstart : capped (nearest 0 (unitsOf x)) = unitsOf x := by
    rw [(denotes_unpack hx).nearest_zero_eq, capped_unitsOf hx]
  rcases h with ⟨hpos, hle⟩ | ⟨hle, hneg⟩
  · apply isFinite_of_unitsOf hx hz hnumber
    · rw [hsum]
      exact hstart.symm.trans_le (capped_nearest_mono 0 (by omega))
    · rw [hsum, hend]
      exact capped_nearest_mono 0 (by omega)
  · apply isFinite_of_unitsOf hz hx hnumber
    · rw [hsum, hend]
      exact capped_nearest_mono 0 (by omega)
    · rw [hsum]
      exact (capped_nearest_mono 0 (by omega)).trans_eq hstart

/-- What is multiplied by one at most is not too large. -/
lemma isFinite_mul_of_le_one (hx : x.isFinite = true) (hy : y.isFinite = true) (hpos : 0 ≤ unitsOf y)
    (hle : unitsOf y ≤ unitsOf 1) : (x * y).isFinite = true := by
  obtain ⟨hnumber, hproduct⟩ := unitsOf_mul hx hy
  have hone : capped (nearest 1074 (unitsOf x * unitsOf 1)) = unitsOf x := by
    rw [unitsOf_one, (denotes_unpack hx).nearest_eq, capped_unitsOf hx]
  rcases le_total 0 (unitsOf x) with h | h
  · apply isFinite_of_unitsOf (x := 0) rfl hx hnumber
    · rw [unitsOf_zero, hproduct, ← capped_nearest_zero 1074]
      exact capped_nearest_mono 1074 (mul_nonneg h hpos)
    · rw [hproduct]
      exact (capped_nearest_mono 1074 (mul_le_mul_of_nonneg_left hle h)).trans_eq hone
  · apply isFinite_of_unitsOf (z := 0) hx rfl hnumber
    · rw [hproduct]
      exact hone.symm.trans_le (capped_nearest_mono 1074 (mul_le_mul_of_nonpos_left hle h))
    · rw [unitsOf_zero, hproduct, ← capped_nearest_zero 1074]
      exact capped_nearest_mono 1074 (mul_nonpos_of_nonpos_of_nonneg h hpos)

lemma unitsOf_mul_between (hx : x.isFinite = true) (hy : y.isFinite = true) (hz : z.isFinite = true)
    (hpos : 0 ≤ unitsOf x) (hle : unitsOf x ≤ unitsOf y) :
    0 ≤ unitsOf (x * z) ∧ unitsOf (x * z) ≤ unitsOf (y * z) ∨
      unitsOf (y * z) ≤ unitsOf (x * z) ∧ unitsOf (x * z) ≤ 0 := by
  rw [(unitsOf_mul hx hz).2, (unitsOf_mul hy hz).2]
  rcases le_total 0 (unitsOf z) with h | h
  · left
    rw [← capped_nearest_zero 1074]
    exact ⟨capped_nearest_mono 1074 (mul_nonneg hpos h),
      capped_nearest_mono 1074 (mul_le_mul_of_nonneg_right hle h)⟩
  · right
    rw [← capped_nearest_zero 1074]
    exact ⟨capped_nearest_mono 1074 (mul_le_mul_of_nonpos_right hle h),
      capped_nearest_mono 1074 (mul_nonpos_of_nonneg_of_nonpos hpos h)⟩

/-- If the far end of a stretch is placed at a number, so is all that lies before it. -/
lemma isFinite_stretch {w : Float} (hx : x.isNaN = false) (hpos : 0 ≤ unitsOf x)
    (hle : unitsOf x ≤ unitsOf y) (h : (w + y * z).isFinite = true) :
    (w + x * z).isFinite = true := by
  obtain ⟨hw, hyz⟩ := isFinite_add h
  obtain ⟨hy, hz⟩ := isFinite_mul hyz
  have hx' : x.isFinite = true := by
    apply isFinite_of_unitsOf (x := 0) rfl hy hx _ hle
    rwa [unitsOf_zero]
  have hbetween := unitsOf_mul_between hx' hy hz hpos hle
  apply isFinite_add_of_le h _ hbetween
  obtain ⟨hnumber, -⟩ := unitsOf_mul hx' hz
  rcases hbetween with ⟨h₁, h₂⟩ | ⟨h₁, h₂⟩
  · exact isFinite_of_unitsOf (x := 0) rfl hyz hnumber h₁ h₂
  · exact isFinite_of_unitsOf (z := 0) hyz rfl hnumber h₁ h₂

/-- What lies before the far end of a stretch is placed between the two ends. -/
lemma unitsOf_stretch {w : Float} (hx : x.isNaN = false) (hpos : 0 ≤ unitsOf x)
    (hle : unitsOf x ≤ unitsOf y) (h : (w + y * z).isFinite = true) :
    unitsOf w ≤ unitsOf (w + x * z) ∧ unitsOf (w + x * z) ≤ unitsOf (w + y * z) ∨
      unitsOf (w + y * z) ≤ unitsOf (w + x * z) ∧ unitsOf (w + x * z) ≤ unitsOf w := by
  obtain ⟨hw, hxz⟩ := isFinite_add (isFinite_stretch hx hpos hle h)
  obtain ⟨-, hyz⟩ := isFinite_add h
  have hstart : capped (nearest 0 (unitsOf w)) = unitsOf w := by
    rw [(denotes_unpack hw).nearest_zero_eq, capped_unitsOf hw]
  rw [(unitsOf_add hw hxz).2, (unitsOf_add hw hyz).2]
  rcases unitsOf_mul_between (isFinite_mul hxz).1 (isFinite_mul hyz).1 (isFinite_mul hyz).2 hpos hle
    with ⟨h₁, h₂⟩ | ⟨h₁, h₂⟩
  · exact .inl ⟨hstart.symm.trans_le (capped_nearest_mono 0 (by omega)),
      capped_nearest_mono 0 (by omega)⟩
  · exact .inr ⟨capped_nearest_mono 0 (by omega),
      (capped_nearest_mono 0 (by omega)).trans_eq hstart⟩

lemma zero_lt_iff_unitsOf (hx : x.isNaN = false) : 0 < x ↔ 0 < unitsOf x := by
  rw [lt_iff_rank rfl hx]
  exact rank_zero_lt_iff .positive

lemma zero_lt_sub_iff (hx : x.isFinite = true) (hy : y.isFinite = true) :
    0 < x - y ↔ unitsOf y < unitsOf x := by
  obtain ⟨hnumber, hdifference⟩ := unitsOf_sub hx hy
  have hpos := overflow_pos
  have hiff : 0 < capped (nearest 0 (unitsOf x - unitsOf y)) ↔ 0 < nearest 0 (unitsOf x - unitsOf y) := by
    unfold capped
    omega
  rw [zero_lt_iff_unitsOf hnumber, hdifference, hiff, nearest_zero_pos_iff, sub_pos]

end Operations

end Lindenmayer.Binary64
