import Lindenmayer.Proofs.Binary64.Circular

/-! Doubles with the other sign. Sums, products, cosines and sines of them are those of the doubles
themselves, but for the sign; only where a sum is zero may its sign stay. -/

namespace Lindenmayer.Binary64

open Float.Model (UnpackedFloat Format)
open Float.Model.UnpackedFloat

/-- The second is the first with the other sign. A zero may have any. -/
inductive Negates : UnpackedFloat → UnpackedFloat → Prop
  | neg (u) : Negates u u.neg
  | zero (s t) : Negates (.zero s) (.zero t)

section Unpacked

variable {u u' v v' : UnpackedFloat}

lemma sign_neg_neg (s : Sign) : - -s = s := by
  cases s <;> rfl

lemma unpacked_neg_neg (u : UnpackedFloat) : u.neg.neg = u := by
  cases u <;> simp only [UnpackedFloat.neg, sign_neg_neg]

lemma Negates.neg_neg (h : Negates u v) : Negates u.neg v.neg := by
  cases h with
  | neg => exact .neg u.neg
  | zero s t => exact .zero _ _

lemma roundWithAccuracy_neg (s : Sign) (m : ℕ) (e : ℤ) (a : Accuracy) :
    roundWithAccuracy Format.binary64 (-s) m e a =
      (roundWithAccuracy Format.binary64 s m e a).neg := by
  unfold roundWithAccuracy
  dsimp only
  split <;> rfl

lemma round_neg (s : Sign) (m : ℕ) (e : ℤ) :
    UnpackedFloat.round Format.binary64 (-s) m e =
      (UnpackedFloat.round Format.binary64 s m e).neg :=
  roundWithAccuracy_neg s _ _ _

lemma negates_normalize (z e : ℤ) :
    Negates (UnpackedFloat.normalize Format.binary64 z e .positive)
      (UnpackedFloat.normalize Format.binary64 (-z) e .positive) := by
  unfold UnpackedFloat.normalize
  rcases lt_trichotomy z 0 with hz | rfl | hz
  · have hcompare : compare z 0 = .lt := Int.compare_eq_lt.mpr hz
    have hcompare' : compare (-z) 0 = .gt := Int.compare_eq_gt.mpr (by omega)
    rw [hcompare, hcompare']
    change Negates _ (UnpackedFloat.round Format.binary64 (-.negative) (-z).toNat e)
    rw [round_neg]
    exact .neg _
  · -- The sign of this zero is not that of its parts, and does not change with them.
    exact .zero _ _
  · have hcompare : compare z 0 = .gt := Int.compare_eq_gt.mpr hz
    have hcompare' : compare (-z) 0 = .lt := Int.compare_eq_lt.mpr (by omega)
    rw [hcompare, hcompare', Int.neg_neg]
    change Negates _ (UnpackedFloat.round Format.binary64 (-.positive) z.toNat e)
    rw [round_neg]
    exact .neg _

lemma negates_add_neg (u v : UnpackedFloat) :
    Negates (UnpackedFloat.add Format.binary64 u v)
      (UnpackedFloat.add Format.binary64 u.neg v.neg) := by
  cases u with
  | notANumber => cases v <;> exact .neg .notANumber
  | infinity s =>
    cases v with
    | notANumber => exact .neg .notANumber
    | infinity t => cases s <;> cases t <;> exact .neg _
    | zero | finite => exact .neg (.infinity s)
  | zero s =>
    cases v with
    | notANumber => exact .neg .notANumber
    | infinity t => exact .neg (.infinity t)
    | zero t => cases s <;> cases t <;> exact .zero _ _
    | finite t n f hn => exact .neg (.finite t n f hn)
  | finite s m e hm =>
    cases v with
    | notANumber => exact .neg .notANumber
    | infinity t => exact .neg (.infinity t)
    | zero t => exact .neg (.finite s m e hm)
    | finite t n f hn =>
      simp only [UnpackedFloat.add, UnpackedFloat.neg, apply_neg, ← Int.neg_add]
      exact negates_normalize _ _

lemma negates_add_zero (u : UnpackedFloat) (s t : Sign) :
    Negates (UnpackedFloat.add Format.binary64 u (.zero s))
      (UnpackedFloat.add Format.binary64 u.neg (.zero t)) := by
  cases u with
  | notANumber => exact .neg .notANumber
  | infinity r => exact .neg (.infinity r)
  | zero r => cases r <;> cases s <;> cases t <;> exact .zero _ _
  | finite r m e hm => exact .neg (.finite r m e hm)

lemma add_comm_zero (u : UnpackedFloat) (s : Sign) :
    UnpackedFloat.add Format.binary64 (.zero s) u =
      UnpackedFloat.add Format.binary64 u (.zero s) := by
  cases u with
  | zero t => cases s <;> cases t <;> rfl
  | notANumber | infinity | finite => rfl

lemma Negates.add (hu : Negates u u') (hv : Negates v v') :
    Negates (UnpackedFloat.add Format.binary64 u v)
      (UnpackedFloat.add Format.binary64 u' v') := by
  cases hu with
  | neg =>
    cases hv with
    | neg => exact negates_add_neg u v
    | zero s t => exact negates_add_zero u s t
  | zero s t =>
    rw [add_comm_zero, add_comm_zero]
    cases hv with
    | neg => exact negates_add_zero v s t
    | zero s' t' => cases s <;> cases t <;> cases s' <;> cases t' <;> exact .zero _ _

lemma Negates.sub (hu : Negates u u') (hv : Negates v v') :
    Negates (UnpackedFloat.sub Format.binary64 u v)
      (UnpackedFloat.sub Format.binary64 u' v') := by
  rw [sub_eq_add_neg, sub_eq_add_neg]
  exact hu.add hv.neg_neg

lemma unpacked_neg_mul (u v : UnpackedFloat) :
    UnpackedFloat.mul Format.binary64 u.neg v = (UnpackedFloat.mul Format.binary64 u v).neg := by
  have hsign (s t : Sign) : -s * t = -(s * t) := by
    cases s <;> cases t <;> rfl
  cases u <;> cases v <;> simp only [UnpackedFloat.mul, UnpackedFloat.neg, hsign,
    roundWithAccuracy_neg]

lemma swap_then_compare (m n : ℕ) (e f : ℤ) :
    ((compare e f).then (compare m n)).swap = (compare f e).then (compare n m) := by
  rw [Ordering.swap_then, Int.compare_swap, Nat.compare_swap]

lemma compare_neg (u v : UnpackedFloat) : v.neg.compare u.neg = u.compare v := by
  cases u with
  | notANumber => cases v <;> rfl
  | infinity s => cases v with
    | notANumber => rfl
    | infinity t => cases s <;> cases t <;> rfl
    | zero | finite => cases s <;> rfl
  | zero s => cases v with
    | notANumber => rfl
    | infinity t => cases t <;> rfl
    | zero t => rfl
    | finite t n f hn => cases t <;> rfl
  | finite s m e hm => cases v with
    | notANumber => rfl
    | infinity t => cases t <;> rfl
    | zero t => cases s <;> rfl
    | finite t n f hn =>
      cases s <;> cases t
      · exact congrArg some (swap_then_compare m n e f).symm
      · rfl
      · rfl
      · exact congrArg some (swap_then_compare n m f e)

lemma compare_zero (u : UnpackedFloat) (s t : Sign) :
    UnpackedFloat.compare (.zero t) u.neg = u.compare (.zero s) := by
  cases u with
  | notANumber | zero => rfl
  | infinity r | finite r => cases r <;> rfl

lemma compare_zero_left (u : UnpackedFloat) (s t : Sign) :
    u.neg.compare (.zero t) = UnpackedFloat.compare (.zero s) u := by
  cases u with
  | notANumber | zero => rfl
  | infinity r | finite r => cases r <;> rfl

lemma Negates.compare_eq (hu : Negates u u') (hv : Negates v v') :
    v'.compare u' = u.compare v := by
  cases hu with
  | neg =>
    cases hv with
    | neg => exact compare_neg u v
    | zero s t => exact compare_zero u s t
  | zero s t =>
    cases hv with
    | neg => exact compare_zero_left v s t
    | zero => rfl

lemma ofFields_neg (s : Sign) (e : BitVec 11) (m : BitVec 52) :
    ofFields (-s) e m = (ofFields s e m).neg := by
  unfold ofFields
  split
  · split <;> rfl
  · split
    · split <;> rfl
    · rfl

lemma unpack_pack_neg (u : UnpackedFloat) :
    (Float.Model.pack u.neg).unpack = (Float.Model.pack u).unpack.neg := by
  have hfields (s : Sign) (e : BitVec 11) (m : BitVec 52) :
      unpack Format.binary64 (packComponents Format.binary64 (-s) e m) =
        (unpack Format.binary64 (packComponents Format.binary64 s e m)).neg := by
    rw [unpack_packComponents, unpack_packComponents, ofFields_neg]
  cases u with
  | notANumber =>
    rw [show neg .notANumber = .notANumber from rfl, unpack_pack (u := .notANumber) trivial]
    rfl
  | infinity s => exact hfields s _ _
  | zero s => exact hfields s _ _
  | finite s m e hm =>
    change unpack Format.binary64 (UnpackedFloat.pack Format.binary64 (.finite (-s) m e hm)) =
      (unpack Format.binary64 (UnpackedFloat.pack Format.binary64 (.finite s m e hm))).neg
    unfold UnpackedFloat.pack
    dsimp only
    split
    · exact hfields s _ _
    · split <;> exact hfields s _ _

lemma Negates.pack (h : Negates u v) :
    Negates (Float.Model.pack u).unpack (Float.Model.pack v).unpack := by
  cases h with
  | neg =>
    rw [unpack_pack_neg]
    exact .neg _
  | zero s t =>
    rw [unpack_pack (u := .zero s) trivial, unpack_pack (u := .zero t) trivial]
    exact .zero s t

end Unpacked

/-- The second is the first with the other sign, or both are zeros. -/
def Opposite (x y : Float) : Prop := y = -x ∨ (x == 0) = true ∧ (y == 0) = true

section Operations

variable {x x' y y' : Float}

lemma eq_of_unpack_eq (h : x.toModel.unpack = y.toModel.unpack) : x = y := by
  have hbits := (unpack_inj_of_valid x.toModel.valid y.toModel.valid).mp h
  exact Float.toBits_inj.mp (UInt64.toBitVec_inj.mp hbits)

lemma unpack_neg (x : Float) : (-x).toModel.unpack = x.toModel.unpack.neg := by
  change (Float.Model.pack x.toModel.unpack.neg).unpack = _
  rw [unpack_pack_neg, unpack_pack (canonical_unpack x), stored_unpack]

lemma beq_zero_iff : (x == 0) = true ↔ ∃ s, x.toModel.unpack = .zero s := by
  have hzero : (0 : Float).toModel.unpack = .zero .positive := rfl
  change (x.toModel.unpack.compare (0 : Float).toModel.unpack == some .eq) = true ↔ _
  rw [hzero]
  cases x.toModel.unpack with
  | notANumber => simp [UnpackedFloat.compare]
  | infinity s => cases s <;> simp [UnpackedFloat.compare]
  | zero s => simp [UnpackedFloat.compare]
  | finite s m e hm => cases s <;> simp [UnpackedFloat.compare]

lemma opposite_iff : Opposite x y ↔ Negates x.toModel.unpack y.toModel.unpack := by
  unfold Opposite
  rw [beq_zero_iff, beq_zero_iff]
  constructor
  · rintro (rfl | ⟨⟨s, hx⟩, t, hy⟩)
    · rw [unpack_neg]
      exact .neg _
    · rw [hx, hy]
      exact .zero s t
  · intro h
    generalize hx : x.toModel.unpack = u at h
    generalize hy : y.toModel.unpack = v at h
    cases h with
    | neg =>
      left
      apply eq_of_unpack_eq
      rw [unpack_neg, hx, hy]
    | zero s t => exact .inr ⟨⟨s, rfl⟩, t, rfl⟩

lemma opposite_zero : Opposite 0 0 := .inr ⟨rfl, rfl⟩

lemma Opposite.add (hx : Opposite x x') (hy : Opposite y y') : Opposite (x + y) (x' + y') :=
  opposite_iff.mpr ((opposite_iff.mp hx).add (opposite_iff.mp hy)).pack

lemma Opposite.sub (hx : Opposite x x') (hy : Opposite y y') : Opposite (x - y) (x' - y') :=
  opposite_iff.mpr ((opposite_iff.mp hx).sub (opposite_iff.mp hy)).pack

lemma Opposite.lt_iff (hx : Opposite x x') (hy : Opposite y y') : x < y ↔ y' < x' := by
  have hcompare := (opposite_iff.mp hx).compare_eq (opposite_iff.mp hy)
  rw [lt_iff_compare, lt_iff_compare, hcompare]

lemma float_sub_eq_add_neg (x y : Float) : x - y = x + -y := by
  apply eq_of_unpack_eq
  change (Float.Model.pack _).unpack = (Float.Model.pack _).unpack
  rw [unpack_neg, sub_eq_add_neg]

lemma float_neg_neg (x : Float) : - -x = x := by
  apply eq_of_unpack_eq
  rw [unpack_neg, unpack_neg, unpacked_neg_neg]

lemma float_neg_mul (x y : Float) : -x * y = -(x * y) := by
  apply eq_of_unpack_eq
  rw [unpack_neg]
  change (Float.Model.pack (UnpackedFloat.mul Format.binary64 (-x).toModel.unpack _)).unpack = _
  rw [unpack_neg, unpacked_neg_mul, unpack_pack_neg]
  rfl

end Operations

section Circular

variable {x y : Float}

lemma unpack_add_sign {b b' : BitVec 64} (hb : b.toNat < 2 ^ 63) (h : b'.toNat = b.toNat + 2 ^ 63) :
    unpack Format.binary64 b' = (unpack Format.binary64 b).neg := by
  have hexponent : @unpackExponent Format.binary64 b' = @unpackExponent Format.binary64 b := by
    apply BitVec.eq_of_toNat_eq
    rw [toNat_unpackExponent, toNat_unpackExponent, h]
    omega
  have hmantissa : @unpackMantissa Format.binary64 b' = @unpackMantissa Format.binary64 b := by
    apply BitVec.eq_of_toNat_eq
    rw [toNat_unpackMantissa, toNat_unpackMantissa, h]
    omega
  have hsign : @unpackSign Format.binary64 b = 0#1 := by
    apply BitVec.eq_of_toNat_eq
    rw [toNat_unpackSign]
    exact Nat.div_eq_of_lt hb
  have hsign' : @unpackSign Format.binary64 b' = 1#1 := by
    apply BitVec.eq_of_toNat_eq
    rw [toNat_unpackSign, h, Nat.add_div_right _ (Nat.two_pow_pos 63), Nat.div_eq_of_lt hb]
    rfl
  rw [unpack_eq_ofFields, unpack_eq_ofFields, hexponent, hmantissa, hsign, hsign', ← ofFields_neg]
  rfl

lemma ofMagnitudeBits_true {bits : ℕ} (h : bits < 2 ^ 63) :
    ofMagnitudeBits true bits = -ofMagnitudeBits false bits := by
  apply eq_of_unpack_eq
  rw [unpack_neg]
  change (Float.Model.pack (unpack Format.binary64 (UInt64.ofNat (bits + 2 ^ 63)).toBitVec)).unpack =
    (Float.Model.pack (unpack Format.binary64 (UInt64.ofNat (bits + 0)).toBitVec)).unpack.neg
  rw [← unpack_pack_neg, ← unpack_add_sign]
  · change (UInt64.ofNat _).toNat < _
    rw [UInt64.toNat_ofNat']
    omega
  · change (UInt64.ofNat _).toNat = (UInt64.ofNat _).toNat + _
    rw [UInt64.toNat_ofNat', UInt64.toNat_ofNat']
    omega

lemma magnitudeBits_le (num den : ℕ) : magnitudeBits num den ≤ infinityBits := by
  unfold magnitudeBits
  split
  · exact Nat.zero_le _
  · exact min_le_right _ _

lemma opposite_ofPlaces (negative : Bool) (n : ℕ) :
    Opposite (ofPlaces negative n) (ofPlaces (!negative) n) := by
  have hbits : magnitudeBits n (2 ^ places) < 2 ^ 63 :=
    (magnitudeBits_le _ _).trans_lt (by decide)
  left
  cases negative with
  | false => exact ofMagnitudeBits_true hbits
  | true =>
    change ofMagnitudeBits false _ = -ofMagnitudeBits true _
    rw [ofMagnitudeBits_true hbits, float_neg_neg]

lemma circular_not (negative : Bool) (mantissa : ℕ) (exponent : ℤ) :
    (circular (!negative) mantissa exponent).1 = (circular negative mantissa exponent).1 ∧
      Opposite (circular negative mantissa exponent).2
        (circular (!negative) mantissa exponent).2 := by
  have hbeq (a b : Bool) : (a == !b) = !(a == b) := by
    cases a <;> cases b <;> rfl
  unfold circular
  dsimp only
  split
  · refine ⟨rfl, ?_⟩
    rw [Bool.bne_not]
    exact opposite_ofPlaces _ _
  · exact ⟨rfl, opposite_ofPlaces _ _⟩
  · refine ⟨rfl, ?_⟩
    rw [hbeq]
    exact opposite_ofPlaces _ _
  · exact ⟨rfl, opposite_ofPlaces _ _⟩

lemma valueOf_neg (u : UnpackedFloat) :
    valueOf u.neg =
      match valueOf u with
      | .nan => .nan
      | .infinite negative => .infinite (!negative)
      | .finite negative mantissa exponent => .finite (!negative) mantissa exponent := by
  cases u with
  | notANumber => rfl
  | infinity s | zero s | finite s => cases s <;> rfl

lemma cosSin_zero {s : Sign} (h : x.toModel.unpack = .zero s) : cosSin x = some (1, x) := by
  have hslight : isSlight 0 (-1074) = true := by
    rw [isSlight, Nat.zero_mul, decide_eq_true (Nat.two_pow_pos _)]
    rfl
  rw [cosSin, value_eq_valueOf, h]
  simp only [valueOf, hslight, if_true]

lemma neg_eq_of_isNaN (h : value x = .nan) : -x = x := by
  apply eq_of_unpack_eq
  rw [unpack_neg, isNaN_iff.mp ((isNaN_iff_value x).mpr h)]
  rfl

/-- The cosine is even and the sine is odd. -/
lemma cosSin_opposite (h : Opposite x y) :
    Option.Rel (fun d d' => d'.1 = d.1 ∧ Opposite d.2 d'.2) (cosSin x) (cosSin y) := by
  rcases id h with rfl | ⟨hx, hy⟩
  · have hvalue : value (-x) = _ :=
      (value_eq_valueOf _).trans (unpack_neg x ▸ valueOf_neg x.toModel.unpack)
    rw [← value_eq_valueOf] at hvalue
    unfold cosSin
    rw [hvalue]
    cases hx : value x with
    | nan =>
      rw [neg_eq_of_isNaN hx] at h ⊢
      exact .some ⟨rfl, h⟩
    | infinite negative => exact .none
    | finite negative mantissa exponent =>
      refine .some ?_
      split
      · exact ⟨rfl, h⟩
      · exact circular_not negative mantissa exponent
  · obtain ⟨s, hs⟩ := beq_zero_iff.mp hx
    obtain ⟨t, ht⟩ := beq_zero_iff.mp hy
    rw [cosSin_zero hs, cosSin_zero ht]
    exact .some ⟨rfl, h⟩

end Circular

end Lindenmayer.Binary64
