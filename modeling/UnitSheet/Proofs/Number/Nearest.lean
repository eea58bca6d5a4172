import Mathlib
import UnitSheet.Number.Decimal

set_option autoImplicit false

namespace UnitSheet

section
variable {base num den num' den' : Nat} {e : Int}

theorem rescale_snd_pos (hbase : 0 < base) (hden : 0 < den) : 0 < (rescale base num den e).2 := by
  unfold rescale
  split
  · exact Nat.mul_pos hden (Nat.pow_pos hbase)
  · exact hden

theorem value_rescale (hbase : 0 < base) :
    ((rescale base num den e).1 : ℚ) / (rescale base num den e).2 = num / den / (base : ℚ) ^ e := by
  have hbase : (base : ℚ) ≠ 0 := Nat.cast_ne_zero.2 (Nat.ne_of_gt hbase)
  unfold rescale
  split
  · rename_i he
    obtain ⟨k, rfl⟩ := Int.eq_ofNat_of_zero_le he
    simp only [Int.toNat_natCast, Nat.pow_eq, Nat.cast_mul, Nat.cast_pow, zpow_natCast]
    rw [div_div]
  · rename_i he
    obtain ⟨k, hk⟩ := Int.eq_ofNat_of_zero_le (a := -e) (by omega)
    obtain rfl : e = -(k : Int) := by omega
    simp only [neg_neg, Int.toNat_natCast, Nat.pow_eq, Nat.cast_mul, Nat.cast_pow, zpow_neg,
      zpow_natCast, div_inv_eq_mul]
    rw [div_mul_eq_mul_div]

/-- The exponent settles on the logarithm, if the guess is off by one at most. -/
theorem settlePower_eq_log (hbase : 1 < base) (hnum : 0 < num) (hden : 0 < den)
    (hlow : (base : ℚ) ^ (e - 1) ≤ num / den) (hhigh : (num / den : ℚ) < (base : ℚ) ^ (e + 1)) :
    settlePower base num den e = Int.log base (num / den : ℚ) := by
  have hvalue : (0 : ℚ) < num / den := by positivity
  have hd : 0 < (rescale base num den e).2 := rescale_snd_pos (by omega) hden
  have hfits : (rescale base num den e).2 ≤ (rescale base num den e).1 ↔
      (base : ℚ) ^ e ≤ num / den := by
    have hpow : (0 : ℚ) < (base : ℚ) ^ e := zpow_pos (by positivity) e
    rw [← one_le_div hpow, ← value_rescale (by omega), one_le_div (by positivity), Nat.cast_le]
  unfold settlePower
  dsimp only
  split
  · rename_i h
    refine le_antisymm ((Int.zpow_le_iff_le_log hbase hvalue).1 (hfits.1 h)) ?_
    have := (Int.lt_zpow_iff_log_lt hbase hvalue).1 hhigh
    omega
  · rename_i h
    refine le_antisymm ((Int.zpow_le_iff_le_log hbase hvalue).1 hlow) ?_
    have := (Int.lt_zpow_iff_log_lt hbase hvalue).1 (not_le.1 (mt hfits.2 h))
    omega

theorem ratio_bounds {k m : Nat} (hbase : 0 < base) (hden : 0 < den) (hnum : base ^ k ≤ num)
    (hnum' : num < base ^ (k + 1)) (hm : base ^ m ≤ den) (hm' : den < base ^ (m + 1)) :
    (base : ℚ) ^ ((k : Int) - m - 1) ≤ num / den ∧
      (num / den : ℚ) < (base : ℚ) ^ ((k : Int) - m + 1) := by
  have hpos : (0 : ℚ) < base := Nat.cast_pos.2 hbase
  have hd : (0 : ℚ) < den := Nat.cast_pos.2 hden
  have hlow : (base : ℚ) ^ ((k : Int) - m - 1) * (base : ℚ) ^ (m + 1) = (base : ℚ) ^ k := by
    rw [← zpow_natCast, ← zpow_natCast, ← zpow_add₀ hpos.ne']
    congr 1
    omega
  have hhigh : (base : ℚ) ^ ((k : Int) - m + 1) * (base : ℚ) ^ m = (base : ℚ) ^ (k + 1) := by
    rw [← zpow_natCast, ← zpow_natCast, ← zpow_add₀ hpos.ne']
    congr 1
    omega
  constructor
  · rw [le_div_iff₀ hd]
    calc (base : ℚ) ^ ((k : Int) - m - 1) * den
        ≤ (base : ℚ) ^ ((k : Int) - m - 1) * (base : ℚ) ^ (m + 1) :=
          mul_le_mul_of_nonneg_left (by exact_mod_cast hm'.le) (zpow_pos hpos _).le
      _ = (base : ℚ) ^ k := hlow
      _ ≤ num := by exact_mod_cast hnum
  · rw [div_lt_iff₀ hd]
    calc (num : ℚ) < (base : ℚ) ^ (k + 1) := by exact_mod_cast hnum'
      _ = (base : ℚ) ^ ((k : Int) - m + 1) * (base : ℚ) ^ m := hhigh.symm
      _ ≤ (base : ℚ) ^ ((k : Int) - m + 1) * den :=
          mul_le_mul_of_nonneg_left (by exact_mod_cast hm) (zpow_pos hpos _).le

theorem floorLogTwo_eq_log (hnum : 0 < num) (hden : 0 < den) :
    floorLogTwo num den = Int.log 2 (num / den : ℚ) := by
  obtain ⟨hlow, hhigh⟩ := ratio_bounds two_pos hden (Nat.log2_self_le hnum.ne') Nat.lt_log2_self
    (Nat.log2_self_le hden.ne') Nat.lt_log2_self
  exact settlePower_eq_log (by decide) hnum hden hlow hhigh

theorem roundHalfEven_mul (k : Nat) (hk : 0 < k) :
    roundHalfEven (k * num) (k * den) = roundHalfEven num den := by
  unfold roundHalfEven
  rw [Nat.mul_mod_mul_left, Nat.mul_div_mul_left _ _ hk]
  have hless : 2 * (k * (num % den)) < k * den ↔ 2 * (num % den) < den := by
    rw [Nat.mul_left_comm, Nat.mul_lt_mul_left hk]
  have hmore : k * den < 2 * (k * (num % den)) ↔ den < 2 * (num % den) := by
    rw [Nat.mul_left_comm, Nat.mul_lt_mul_left hk]
  simp only [hless, hmore]

theorem roundHalfEven_congr (hden : 0 < den) (hden' : 0 < den')
    (h : (num : ℚ) / den = num' / den') : roundHalfEven num den = roundHalfEven num' den' := by
  have hcross : den' * num = den * num' := by
    have hd : (den : ℚ) ≠ 0 := by positivity
    have hd' : (den' : ℚ) ≠ 0 := by positivity
    rw [div_eq_div_iff hd hd'] at h
    have hcast : num * den' = num' * den := by exact_mod_cast h
    rw [Nat.mul_comm, hcast, Nat.mul_comm]
  calc roundHalfEven num den = roundHalfEven (den' * num) (den' * den) :=
        (roundHalfEven_mul den' hden').symm
    _ = roundHalfEven (den * num') (den * den') := by rw [hcross, Nat.mul_comm den' den]
    _ = roundHalfEven num' den' := roundHalfEven_mul den hden

end

namespace Binary

section
variable {num den num' den' : Nat}

theorem nearestBits_congr (hden : 0 < den) (hden' : 0 < den')
    (h : (num : ℚ) / den = num' / den') : nearestBits num den = nearestBits num' den' := by
  unfold nearestBits
  have hzero : num = 0 ↔ num' = 0 := by
    have hd : (den : ℚ) ≠ 0 := by positivity
    have hd' : (den' : ℚ) ≠ 0 := by positivity
    have hiff : (num : ℚ) / den = 0 ↔ (num' : ℚ) / den' = 0 := by rw [h]
    simpa [hd, hd'] using hiff
  by_cases hn : num = 0
  · rw [if_pos hn, if_pos (hzero.1 hn)]
  · rw [if_neg hn, if_neg (mt hzero.2 hn)]
    have hlog : floorLogTwo num den = floorLogTwo num' den' := by
      rw [floorLogTwo_eq_log (Nat.pos_of_ne_zero hn) hden,
        floorLogTwo_eq_log (Nat.pos_of_ne_zero (mt hzero.2 hn)) hden', h]
    dsimp only
    rw [hlog]
    congr 2
    refine roundHalfEven_congr (rescale_snd_pos two_pos hden) (rescale_snd_pos two_pos hden') ?_
    rw [value_rescale two_pos, value_rescale two_pos, h]

/-- A value that is a double with a full significand, or one of the least exponent, keeps it. -/
theorem nearestBits_of_value {significand : Nat} {e : Int} (hden : 0 < den)
    (hvalue : (num : ℚ) / den = significand * (2 : ℚ) ^ e) (hsmall : significand < 2 ^ 53)
    (he : -1074 ≤ e) (hfull : 2 ^ 52 ≤ significand ∨ e = -1074) :
    nearestBits num den = min infinityBits ((e + 1074).toNat * Nat.pow 2 52 + significand) := by
  have htwo : (0 : ℚ) < (2 : ℚ) ^ e := zpow_pos two_pos e
  by_cases hzero : significand = 0
  · obtain rfl : e = -1074 := by omega
    have hnum : num = 0 := by
      rw [hzero, Nat.cast_zero, zero_mul, div_eq_zero_iff] at hvalue
      rcases hvalue with h | h <;> have := Nat.cast_eq_zero.1 h <;> omega
    rw [hzero, nearestBits, if_pos hnum]
    rfl
  · have hsignificand : (0 : ℚ) < significand := Nat.cast_pos.2 (Nat.pos_of_ne_zero hzero)
    have hpos : (0 : ℚ) < num / den := hvalue ▸ mul_pos hsignificand htwo
    have hnum : 0 < num := by
      rcases Nat.eq_zero_or_pos num with rfl | h
      · simp at hpos
      · exact h
    have hlow : e = -1074 ∨ e + 52 ≤ Int.log 2 (num / den : ℚ) := by
      rcases hfull with hfull | hfull
      · refine .inr ((Int.zpow_le_iff_le_log (by decide) hpos).1 ?_)
        rw [hvalue, Nat.cast_ofNat, add_comm, zpow_add₀ two_ne_zero]
        exact mul_le_mul_of_nonneg_right (by exact_mod_cast hfull) htwo.le
      · exact .inl hfull
    have hhigh : Int.log 2 (num / den : ℚ) < e + 53 := by
      refine (Int.lt_zpow_iff_log_lt (by decide) hpos).1 ?_
      rw [hvalue, Nat.cast_ofNat, add_comm, zpow_add₀ two_ne_zero]
      exact mul_lt_mul_of_pos_right (by exact_mod_cast hsmall) htwo
    have hexponent : max (-1074) (floorLogTwo num den - 52) = e := by
      rw [floorLogTwo_eq_log hnum hden]
      omega
    have hround : roundHalfEven (rescale 2 num den e).1 (rescale 2 num den e).2 = significand := by
      rw [← roundHalfEven_one significand]
      refine roundHalfEven_congr (rescale_snd_pos two_pos hden) one_pos ?_
      rw [value_rescale two_pos, hvalue, Nat.cast_ofNat, mul_div_assoc, div_self htwo.ne', mul_one,
        Nat.cast_one, div_one]
    rw [nearestBits, if_neg hnum.ne']
    dsimp only
    rw [hexponent, hround]

theorem nearestBits_of_huge (hden : 0 < den) (h : (2 : ℚ) ^ (1026 : Int) ≤ num / den) :
    nearestBits num den = infinityBits := by
  have hpos : (0 : ℚ) < num / den := lt_of_lt_of_le (zpow_pos two_pos _) h
  have hnum : 0 < num := by
    rcases Nat.eq_zero_or_pos num with rfl | h
    · simp at hpos
    · exact h
  have hlog : 1026 ≤ floorLogTwo num den := by
    rw [floorLogTwo_eq_log hnum hden]
    exact (Int.zpow_le_iff_le_log (by decide) hpos).1 h
  rw [nearestBits, if_neg hnum.ne']
  dsimp only
  refine Nat.min_eq_left (Nat.le_trans ?_ (Nat.le_add_right _ _))
  exact Nat.mul_le_mul_right _ (by omega)

theorem nearestBits_of_tiny (hden : 0 < den) (h : (num / den : ℚ) < (2 : ℚ) ^ (-1075 : Int)) :
    nearestBits num den = 0 := by
  rcases Nat.eq_zero_or_pos num with hnum | hnum
  · rw [nearestBits, if_pos hnum]
  have hlog : floorLogTwo num den < -1075 := by
    rw [floorLogTwo_eq_log hnum hden]
    exact (Int.lt_zpow_iff_log_lt (by decide) (by positivity)).1 h
  have hexponent : max (-1074) (floorLogTwo num den - 52) = -1074 := by omega
  have hround : roundHalfEven (rescale 2 num den (-1074)).1 (rescale 2 num den (-1074)).2 = 0 := by
    have hd : 0 < (rescale 2 num den (-1074)).2 := rescale_snd_pos two_pos hden
    have hvalue : ((rescale 2 num den (-1074)).1 : ℚ) / (rescale 2 num den (-1074)).2 =
        num / den / ((2 : Nat) : ℚ) ^ (-1074 : Int) := value_rescale two_pos
    generalize rescale 2 num den (-1074) = scaled at hd hvalue
    have hless : 2 * scaled.1 < scaled.2 := by
      have hd' : (0 : ℚ) < scaled.2 := Nat.cast_pos.2 hd
      have hhalf : (scaled.1 : ℚ) / scaled.2 < 2⁻¹ := by
        rw [hvalue, Nat.cast_ofNat, div_lt_iff₀ (zpow_pos two_pos _)]
        calc (num / den : ℚ) < (2 : ℚ) ^ (-1075 : Int) := h
          _ = 2⁻¹ * (2 : ℚ) ^ (-1074 : Int) := by
            rw [← zpow_neg_one, ← zpow_add₀ two_ne_zero]
            rfl
      rw [div_lt_iff₀ hd', inv_mul_eq_div, lt_div_iff₀ two_pos, mul_comm] at hhalf
      exact_mod_cast hhalf
    rw [roundHalfEven, Nat.mod_eq_of_lt (by omega), if_pos hless, Nat.div_eq_of_lt (by omega)]
  rw [nearestBits, if_neg hnum.ne']
  dsimp only
  rw [hexponent, hround]
  rfl

end

/-- The exponent and the significand are those of a double: in range, and without leading zeros
unless the exponent is the least one. -/
structure IsDouble (b : Binary) : Prop where
  significand_lt : b.significand < 2 ^ 53
  exponent_ge : -1074 ≤ b.exponent
  exponent_le : b.exponent ≤ 971
  full : 2 ^ 52 ≤ b.significand ∨ b.exponent = -1074

def bits (b : Binary) : Nat := (b.exponent + 1074).toNat * Nat.pow 2 52 + b.significand

section
variable {b : Binary} {x : Float}

theorem ratio_snd_pos (b : Binary) : 0 < b.ratio.2 := by
  unfold ratio
  split
  · exact one_pos
  · exact Nat.pow_pos two_pos

theorem value_ratio (b : Binary) :
    (b.ratio.1 : ℚ) / b.ratio.2 = b.significand * (2 : ℚ) ^ b.exponent := by
  unfold ratio
  split
  · rename_i he
    obtain ⟨k, hk⟩ := Int.eq_ofNat_of_zero_le he
    simp only [hk, Int.toNat_natCast, Nat.pow_eq, Nat.cast_mul, Nat.cast_pow, Nat.cast_ofNat,
      zpow_natCast, Nat.cast_one, div_one]
  · rename_i he
    obtain ⟨k, hk⟩ := Int.eq_ofNat_of_zero_le (a := -b.exponent) (by omega)
    rw [← neg_neg b.exponent, hk]
    simp only [neg_neg, Int.toNat_natCast, Nat.pow_eq, Nat.cast_pow, Nat.cast_ofNat, zpow_neg,
      zpow_natCast]
    rw [div_eq_mul_inv]

theorem IsDouble.bits_lt (h : b.IsDouble) : b.bits < infinityBits := by
  obtain ⟨hsmall, hge, hle, -⟩ := h
  have hstep : (b.exponent + 1074).toNat * Nat.pow 2 52 ≤ 2045 * Nat.pow 2 52 :=
    Nat.mul_le_mul_right _ (by omega)
  have hpow : Nat.pow 2 52 = 2 ^ 52 := rfl
  unfold bits infinityBits
  omega

theorem IsDouble.nearestBits_ratio (h : b.IsDouble) : nearestBits b.ratio.1 b.ratio.2 = b.bits := by
  rw [nearestBits_of_value b.ratio_snd_pos b.value_ratio h.significand_lt h.exponent_ge h.full]
  exact Nat.min_eq_right h.bits_lt.le

theorem ofFloat?_eq_some (h : ofFloat? x = some b) : b.IsDouble ∧
    x.toBits.toNat = (if b.negative then Nat.pow 2 63 + b.bits else b.bits) := by
  have hbits : x.toBits.toNat < 2 ^ 64 := x.toBits.toNat_lt
  have h52 : Nat.pow 2 52 = 4503599627370496 := rfl
  have h63 : Nat.pow 2 63 = 9223372036854775808 := rfl
  unfold ofFloat? at h
  simp only [h52, h63, bits] at h ⊢
  generalize x.toBits.toNat = n at h hbits ⊢
  split at h
  · cases h
  · split at h
    · obtain rfl := Option.some.inj h
      refine ⟨⟨by dsimp only; omega, le_refl _, by dsimp only; omega, .inr rfl⟩, ?_⟩
      dsimp only
      split <;> simp_all <;> omega
    · obtain rfl := Option.some.inj h
      refine ⟨⟨by dsimp only; omega, by dsimp only; omega, by dsimp only; omega,
        .inl (by dsimp only; omega)⟩, ?_⟩
      dsimp only
      split <;> simp_all <;> omega

theorem withSign_of_ofFloat? (h : ofFloat? x = some b) : withSign b.negative b.bits = x := by
  rw [withSign, ← (ofFloat?_eq_some h).2, UInt64.ofNat_toNat, Float.ofBits_toBits]

end

section
open Float.Model (Format UnpackedFloat)
open Float.Model.UnpackedFloat (unpack unpackExponent unpackMantissa unpackSign)

theorem fields_of_toNat {u : BitVec Format.binary64.numBits} {n : Nat} (hu : u.toNat = n) :
    (unpackExponent u).toNat = n / 2 ^ 52 % 2 ^ 11 ∧ (unpackMantissa u).toNat = n % 2 ^ 52 ∧
      (unpackSign u).toNat = n / 2 ^ 63 % 2 := by
  refine ⟨?_, ?_, ?_⟩
  · simp [unpackExponent, hu, Nat.shiftRight_eq_div_pow]
  · simp [unpackMantissa, hu]
  · simp [unpackSign, hu, Nat.shiftRight_eq_div_pow]

theorem neg_unpack {u v : BitVec Format.binary64.numBits} {n : Nat} (hu : u.toNat = n)
    (hv : v.toNat = 2 ^ 63 + n) (hn : n < infinityBits) :
    (unpack Format.binary64 u).neg = unpack Format.binary64 v ∧ Format.binary64.Valid u := by
  have hinfinity : infinityBits = 2047 * 2 ^ 52 := rfl
  obtain ⟨hue, hum, hus⟩ := fields_of_toNat hu
  obtain ⟨hve, hvm, hvs⟩ := fields_of_toNat hv
  have hexponent : unpackExponent v = unpackExponent u :=
    BitVec.eq_of_toNat_eq (by rw [hue, hve]; omega)
  have hmantissa : unpackMantissa v = unpackMantissa u :=
    BitVec.eq_of_toNat_eq (by rw [hum, hvm]; omega)
  have hplus : unpackSign u = 0#1 := BitVec.eq_of_toNat_eq (by rw [hus, BitVec.toNat_ofNat]; omega)
  have hminus : unpackSign v = 1#1 := BitVec.eq_of_toNat_eq (by rw [hvs, BitVec.toNat_ofNat]; omega)
  have hfinite : unpackExponent u ≠ -1#_ := by
    intro h
    have hall := congrArg BitVec.toNat h
    rw [hue] at hall
    simp at hall
    omega
  refine ⟨?_, ⟨fun h => absurd h hfinite⟩⟩
  unfold unpack
  simp only [hexponent, hmantissa, hplus, hminus, hfinite, if_false]
  split
  · split <;> rfl
  · rfl

theorem neg_withSign {bits : Nat} (h : bits < infinityBits) :
    -withSign false bits = withSign true bits := by
  have hinfinity : infinityBits = 2047 * 2 ^ 52 := rfl
  have hplus : (UInt64.ofNat bits).toBitVec.toNat = bits := by
    simp
    omega
  have hminus : (UInt64.ofNat (Nat.pow 2 63 + bits)).toBitVec.toNat = 2 ^ 63 + bits := by
    simp
    omega
  obtain ⟨hneg, hvalid⟩ := neg_unpack hplus hminus h
  have hpack : (Float.Model.pack (unpack Format.binary64 (UInt64.ofNat bits).toBitVec)).unpack =
      unpack Format.binary64 (UInt64.ofNat bits).toBitVec := by
    unfold Float.Model.unpack Float.Model.pack
    dsimp only
    rw [UnpackedFloat.pack_unpack_of_valid hvalid]
  unfold withSign
  simp only [Bool.false_eq_true, if_false, if_true]
  change Float.ofModel (Float.Model.pack (Float.Model.pack
    (unpack Format.binary64 (UInt64.ofNat bits).toBitVec)).unpack.neg) = Float.ofModel
      (Float.Model.pack (unpack Format.binary64 (UInt64.ofNat (Nat.pow 2 63 + bits)).toBitVec))
  rw [hpack, hneg]

theorem exists_ofFloat? {x : Float} (h : x.isFinite = true) : ∃ b, ofFloat? x = some b := by
  have hfield : x.toBits.toNat / Nat.pow 2 52 % 2048 ≠ 2047 := by
    intro hfield
    have hall : @unpackExponent Format.binary64 x.toBits.toBitVec = -1#_ :=
      BitVec.eq_of_toNat_eq ((fields_of_toNat rfl).1.trans hfield)
    have hunpack : x.isFinite = (unpack Format.binary64 x.toBits.toBitVec).isFinite := rfl
    rw [hunpack] at h
    unfold unpack at h
    simp only [hall, if_true] at h
    split at h <;> cases h
  unfold ofFloat?
  dsimp only
  rw [if_neg hfield]
  split
  · exact ⟨_, rfl⟩
  · exact ⟨_, rfl⟩

end

end Binary

end UnitSheet
