import UnitSheet.Proofs.Number.Nearest

set_option autoImplicit false

namespace UnitSheet

namespace Binary

def size (b : Binary) : ℚ := b.significand * (2 : ℚ) ^ b.exponent

def value (b : Binary) : ℚ := if b.negative then -b.size else b.size

def magnitude (b : Binary) : Binary := { b with negative := false }

section
variable {a b : Binary}

theorem size_nonneg (b : Binary) : 0 ≤ b.size :=
  mul_nonneg (Nat.cast_nonneg _) (zpow_pos two_pos _).le

theorem size_pos_iff : 0 < b.size ↔ b.significand ≠ 0 := by
  rw [size, mul_pos_iff_of_pos_right (zpow_pos two_pos _), Nat.cast_pos, Nat.pos_iff_ne_zero]

theorem size_eq_zero_iff : b.size = 0 ↔ b.significand = 0 := by
  rw [← not_iff_not, ← Ne, ← b.size_nonneg.lt_iff_ne', size_pos_iff]

theorem abs_value (b : Binary) : |b.value| = b.size := by
  unfold value
  split
  · rw [abs_neg, abs_of_nonneg b.size_nonneg]
  · exact abs_of_nonneg b.size_nonneg

theorem value_magnitude (b : Binary) : b.magnitude.value = b.size := rfl

theorem IsDouble.magnitude (h : b.IsDouble) : b.magnitude.IsDouble :=
  ⟨h.significand_lt, h.exponent_ge, h.exponent_le, h.full⟩

theorem size_lt_of_exponent_lt (ha : a.IsDouble) (hb : b.IsDouble) (h : a.exponent < b.exponent) :
    a.size < b.size := by
  have hexponent := ha.exponent_ge
  have hfull : 2 ^ 52 ≤ b.significand := hb.full.resolve_right (by omega)
  calc a.size < (2 : ℚ) ^ (53 : ℤ) * (2 : ℚ) ^ a.exponent := by
        refine mul_lt_mul_of_pos_right ?_ (zpow_pos two_pos _)
        exact_mod_cast ha.significand_lt
    _ = (2 : ℚ) ^ (53 + a.exponent) := (zpow_add₀ two_ne_zero _ _).symm
    _ ≤ (2 : ℚ) ^ (52 + b.exponent) := zpow_le_zpow_right₀ one_le_two (by omega)
    _ = (2 : ℚ) ^ (52 : ℤ) * (2 : ℚ) ^ b.exponent := zpow_add₀ two_ne_zero _ _
    _ ≤ b.size := by
        refine mul_le_mul_of_nonneg_right ?_ (zpow_pos two_pos _).le
        exact_mod_cast hfull

theorem compare_size (ha : a.IsDouble) (hb : b.IsDouble) :
    (compare a.exponent b.exponent).then (compare a.significand b.significand) =
      compare a.size b.size := by
  rcases lt_trichotomy a.exponent b.exponent with h | h | h
  · rw [compare_lt_iff_lt.2 h, compare_lt_iff_lt.2 (size_lt_of_exponent_lt ha hb h)]
    rfl
  · have htwo : (0 : ℚ) < (2 : ℚ) ^ b.exponent := zpow_pos two_pos _
    rw [compare_eq_iff_eq.2 h, size, size, h]
    change compare a.significand b.significand = _
    rcases lt_trichotomy a.significand b.significand with hs | hs | hs
    · rw [compare_lt_iff_lt.2 hs, compare_lt_iff_lt.2]
      exact mul_lt_mul_of_pos_right (Nat.cast_lt.2 hs) htwo
    · rw [compare_eq_iff_eq.2 hs, compare_eq_iff_eq.2]
      rw [hs]
    · rw [compare_gt_iff_gt.2 hs, compare_gt_iff_gt.2]
      exact mul_lt_mul_of_pos_right (Nat.cast_lt.2 hs) htwo
  · rw [compare_gt_iff_gt.2 h, compare_gt_iff_gt.2 (size_lt_of_exponent_lt hb ha h)]
    rfl

end

section
open Float.Model (Format UnpackedFloat)
open Float.Model.UnpackedFloat (Sign unpack unpackExponent unpackMantissa unpackSign)

def sign (b : Binary) : Sign := if b.negative then .negative else .positive

def parts (b : Binary) : UnpackedFloat :=
  if h : b.significand = 0 then .zero b.sign
  else .finite b.sign b.significand b.exponent (Nat.pos_of_ne_zero h)

variable {a b : Binary}

theorem parts_of_eq_zero (h : b.significand = 0) : b.parts = .zero b.sign := dif_pos h

theorem parts_of_ne_zero (h : b.significand ≠ 0) :
    b.parts = .finite b.sign b.significand b.exponent (Nat.pos_of_ne_zero h) := dif_neg h

theorem abs_parts (b : Binary) : b.parts.abs = b.magnitude.parts := by
  by_cases h : b.significand = 0
  · rw [parts_of_eq_zero h, parts_of_eq_zero (b := b.magnitude) h]
    rfl
  · rw [parts_of_ne_zero h, parts_of_ne_zero (b := b.magnitude) h]
    rfl

theorem fields_of_bits {n : Nat} (hb : b.IsDouble)
    (hn : n = if b.negative then Nat.pow 2 63 + b.bits else b.bits) :
    n / 2 ^ 52 % 2 ^ 11 = (if b.significand < 2 ^ 52 then 0 else (b.exponent + 1075).toNat) ∧
      n % 2 ^ 52 = b.significand % 2 ^ 52 ∧ n / 2 ^ 63 % 2 = if b.negative then 1 else 0 := by
  have h52 : Nat.pow 2 52 = 2 ^ 52 := rfl
  have h63 : Nat.pow 2 63 = 2 ^ 63 := rfl
  obtain ⟨hlt, hge, hle, hfull⟩ := hb
  rw [bits, h52, h63] at hn
  cases hnegative : b.negative with
  | true =>
    rw [hnegative, if_pos rfl] at hn
    refine ⟨?_, by omega, by rw [if_pos rfl]; omega⟩
    split <;> omega
  | false =>
    rw [hnegative, if_neg (by decide)] at hn
    refine ⟨?_, by omega, by rw [if_neg (by decide)]; omega⟩
    split <;> omega

theorem unpack_eq_parts {u : BitVec Format.binary64.numBits} (hb : b.IsDouble)
    (hu : u.toNat = if b.negative then Nat.pow 2 63 + b.bits else b.bits) :
    unpack Format.binary64 u = b.parts ∧ Format.binary64.Valid u := by
  obtain ⟨hexponent, hmantissa, hsign⟩ := fields_of_toNat hu
  obtain ⟨hfield, hfraction, hone⟩ := fields_of_bits hb rfl
  rw [hfield] at hexponent
  rw [hfraction] at hmantissa
  rw [hone] at hsign
  have hlt := hb.significand_lt
  have hge := hb.exponent_ge
  have hle := hb.exponent_le
  have hsign : Sign.ofBitVec (unpackSign u) = b.sign := by
    cases hnegative : b.negative with
    | true =>
      rw [hnegative, if_pos rfl] at hsign
      rw [BitVec.eq_of_toNat_eq (y := 1#1) hsign, sign, hnegative]
      rfl
    | false =>
      rw [hnegative, if_neg (by decide)] at hsign
      rw [BitVec.eq_of_toNat_eq (y := 0#1) hsign, sign, hnegative]
      rfl
  have hfinite : unpackExponent u ≠ -1#_ := by
    intro h
    have hall := congrArg BitVec.toNat h
    rw [hexponent] at hall
    simp at hall
    split at hall <;> omega
  refine ⟨?_, ⟨fun h => absurd h hfinite⟩⟩
  unfold unpack
  simp only [hsign, hexponent, hfinite, if_false]
  by_cases hsmall : b.significand < 2 ^ 52
  · rw [if_pos hsmall] at hexponent
    rw [Nat.mod_eq_of_lt hsmall] at hmantissa
    have hleast : b.exponent = -1074 := hb.full.resolve_left (by omega)
    have hnone : unpackExponent u = 0#_ := BitVec.eq_of_toNat_eq hexponent
    rw [if_pos hnone]
    by_cases hzero : b.significand = 0
    · have hempty : unpackMantissa u = 0#_ :=
        BitVec.eq_of_toNat_eq (hmantissa.trans hzero)
      rw [dif_pos hempty, parts_of_eq_zero hzero]
    · have hsome : unpackMantissa u ≠ 0#_ := fun h => hzero (by rw [← hmantissa, h]; rfl)
      rw [dif_neg hsome, parts_of_ne_zero hzero]
      simp only [hmantissa, hleast, hsmall]
      rfl
  · rw [if_neg hsmall] at hexponent
    have hne : b.significand ≠ 0 := by omega
    have hsome : unpackExponent u ≠ 0#_ := by
      intro h
      rw [h] at hexponent
      simp at hexponent
      omega
    have hfull : (1#1 ++ unpackMantissa u).toNat = b.significand := by
      rw [BitVec.toNat_append, ← Nat.shiftLeft_add_eq_or_of_lt (unpackMantissa u).isLt, hmantissa]
      simp
      omega
    rw [if_neg hsome, parts_of_ne_zero hne]
    simp only [hfull, hsmall]
    congr 1
    simp [Format.exponentBias]
    omega

theorem parts_cases (b : Binary) :
    (b.parts = .zero b.sign ∧ b.value = 0) ∨
    (∃ h, b.parts = .finite .positive b.significand b.exponent h ∧ b.value = b.size ∧
      0 < b.size) ∨
    ∃ h, b.parts = .finite .negative b.significand b.exponent h ∧ b.value = -b.size ∧
      0 < b.size := by
  by_cases h : b.significand = 0
  · exact .inl ⟨parts_of_eq_zero h, by simp [value, size_eq_zero_iff.2 h]⟩
  · have hparts := parts_of_ne_zero h
    have hpos : 0 < b.size := size_pos_iff.2 h
    refine .inr ?_
    cases hnegative : b.negative with
    | false =>
      rw [sign, hnegative] at hparts
      exact .inl ⟨_, hparts, by simp [value, hnegative], hpos⟩
    | true =>
      rw [sign, hnegative] at hparts
      exact .inr ⟨_, hparts, by simp [value, hnegative], hpos⟩

theorem compare_neg_neg (x y : ℚ) : compare (-x) (-y) = (compare x y).swap := by
  rcases lt_trichotomy x y with h | h | h
  · rw [compare_lt_iff_lt.2 h, compare_gt_iff_gt.2 (neg_lt_neg h)]
    rfl
  · rw [compare_eq_iff_eq.2 h, compare_eq_iff_eq.2 (congrArg _ h)]
    rfl
  · rw [compare_gt_iff_gt.2 h, compare_lt_iff_lt.2 (neg_lt_neg h)]
    rfl

/-- The comparison of the parts is that of the numbers. -/
theorem compare_parts (ha : a.IsDouble) (hb : b.IsDouble) :
    a.parts.compare b.parts = some (compare a.value b.value) := by
  rcases a.parts_cases with ⟨hap, hav⟩ | ⟨hane, hap, hav, hapos⟩ | ⟨hane, hap, hav, hapos⟩ <;>
    rcases b.parts_cases with ⟨hbp, hbv⟩ | ⟨hbne, hbp, hbv, hbpos⟩ | ⟨hbne, hbp, hbv, hbpos⟩ <;>
      rw [hap, hbp, hav, hbv]
  · rw [compare_eq_iff_eq.2 rfl]
    rfl
  · rw [compare_lt_iff_lt.2 hbpos]
    rfl
  · rw [compare_gt_iff_gt.2 (neg_lt_zero.2 hbpos)]
    rfl
  · rw [compare_gt_iff_gt.2 hapos]
    rfl
  · rw [← compare_size ha hb]
    rfl
  · rw [compare_gt_iff_gt.2 ((neg_lt_zero.2 hbpos).trans hapos)]
    rfl
  · rw [compare_lt_iff_lt.2 (neg_lt_zero.2 hapos)]
    rfl
  · rw [compare_lt_iff_lt.2 ((neg_lt_zero.2 hapos).trans hbpos)]
    rfl
  · rw [compare_neg_neg, ← compare_size ha hb]
    rfl

structure Stands (x : Float) (b : Binary) : Prop where
  isDouble : b.IsDouble
  unpack : x.toModel.unpack = b.parts

variable {x y : Float}

theorem stands_of_ofFloat? (h : ofFloat? x = some b) : Stands x b := by
  obtain ⟨hdouble, hbits⟩ := ofFloat?_eq_some h
  exact ⟨hdouble, (unpack_eq_parts hdouble hbits).1⟩

theorem Stands.abs (h : Stands x b) : Stands x.abs b.magnitude := by
  have hbits : (BitVec.ofNat 64 b.bits).toNat = b.magnitude.bits := by
    have hlt := h.isDouble.bits_lt
    have hinfinity : infinityBits = 2047 * 2 ^ 52 := rfl
    rw [BitVec.toNat_ofNat, Nat.mod_eq_of_lt (by omega)]
    rfl
  obtain ⟨hunpack, hvalid⟩ := unpack_eq_parts h.isDouble.magnitude hbits
  refine ⟨h.isDouble.magnitude, ?_⟩
  change (Float.Model.pack x.toModel.unpack.abs).unpack = b.magnitude.parts
  rw [h.unpack, abs_parts, ← hunpack]
  unfold Float.Model.unpack Float.Model.pack
  dsimp only
  rw [UnpackedFloat.pack_unpack_of_valid hvalid]

theorem Stands.le_iff (hx : Stands x a) (hy : Stands y b) : x ≤ y ↔ a.value ≤ b.value := by
  change decide (x.toModel.unpack.le y.toModel.unpack = true) = true ↔ _
  rw [decide_eq_true_iff, UnpackedFloat.le, hx.unpack, hy.unpack,
    compare_parts hx.isDouble hy.isDouble, ← compare_le_iff_le]
  cases compare a.value b.value <;> decide

theorem Stands.lt_iff (hx : Stands x a) (hy : Stands y b) : x < y ↔ a.value < b.value := by
  change decide (x.toModel.unpack.lt y.toModel.unpack = true) = true ↔ _
  rw [decide_eq_true_iff, UnpackedFloat.lt, hx.unpack, hy.unpack,
    compare_parts hx.isDouble hy.isDouble, beq_iff_eq, Option.some_inj, compare_lt_iff_lt]

theorem Stands.beq_iff (hx : Stands x a) (hy : Stands y b) :
    (x == y) = true ↔ a.value = b.value := by
  change x.toModel.unpack.beq y.toModel.unpack = true ↔ _
  rw [UnpackedFloat.beq, hx.unpack, hy.unpack, compare_parts hx.isDouble hy.isDouble, beq_iff_eq,
    Option.some_inj, compare_eq_iff_eq]

end

end Binary

def exactValue (x : Float) : ℚ := ((Binary.ofFloat? x).map Binary.value).getD 0

theorem exactValue_of_ofFloat? {x : Float} {b : Binary} (h : Binary.ofFloat? x = some b) :
    exactValue x = b.value := by
  rw [exactValue, h]
  rfl

theorem le_iff_exactValue_le {x y : Float} (hx : x.isFinite = true) (hy : y.isFinite = true) :
    x ≤ y ↔ exactValue x ≤ exactValue y := by
  obtain ⟨a, ha⟩ := Binary.exists_ofFloat? hx
  obtain ⟨b, hb⟩ := Binary.exists_ofFloat? hy
  rw [exactValue_of_ofFloat? ha, exactValue_of_ofFloat? hb]
  exact (Binary.stands_of_ofFloat? ha).le_iff (Binary.stands_of_ofFloat? hb)

end UnitSheet
