import UnitSheet.Proofs.Number.Nearest

set_option autoImplicit false

namespace UnitSheet.Decimal

def size (d : Decimal) : ℚ := d.digits * (10 : ℚ) ^ d.exponent

theorem digits_lt_pow_digitCount (n : Nat) : n < 10 ^ digitCount n :=
  (Nat.length_toDigits_le_iff (by decide) Nat.length_toDigits_pos).1 le_rfl

section
variable {d d' : Decimal} {b : Binary}

theorem value_rescale_digits (d : Decimal) : ((rescale 10 d.digits 1 (-d.exponent)).1 : ℚ) /
    (rescale 10 d.digits 1 (-d.exponent)).2 = d.size := by
  rw [value_rescale (by decide), Nat.cast_one, div_one, zpow_neg, div_inv_eq_mul]
  rfl

/-- The cases that size alone decides are decided as rounding would. -/
theorem nearestBits_eq_rescale (d : Decimal) : d.nearestBits =
    Binary.nearestBits (rescale 10 d.digits 1 (-d.exponent)).1
      (rescale 10 d.digits 1 (-d.exponent)).2 := by
  have hvalue := d.value_rescale_digits
  have hden : 0 < (rescale 10 d.digits 1 (-d.exponent)).2 := rescale_snd_pos (by decide) one_pos
  unfold nearestBits
  split
  · rename_i hzero
    refine (Binary.nearestBits_of_tiny hden ?_).symm
    rw [hvalue, size, hzero, Nat.cast_zero, zero_mul]
    exact zpow_pos two_pos _
  · rename_i hzero
    split
    · rename_i hlarge
      refine (Binary.nearestBits_of_huge hden ?_).symm
      rw [hvalue, size]
      calc (2 : ℚ) ^ (1026 : Int) ≤ (10 : ℚ) ^ (400 : Int) := by
            exact_mod_cast (by decide +kernel : 2 ^ 1026 ≤ 10 ^ 400)
        _ ≤ (10 : ℚ) ^ d.exponent := zpow_le_zpow_right₀ (by norm_num) (by omega)
        _ ≤ d.digits * (10 : ℚ) ^ d.exponent := by
            refine le_mul_of_one_le_left (zpow_pos (by norm_num) _).le ?_
            exact_mod_cast Nat.one_le_iff_ne_zero.2 hzero
    · split
      · rename_i hsmall
        simp only [Bool.and_eq_true, decide_eq_true_eq] at hsmall
        refine (Binary.nearestBits_of_tiny hden ?_).symm
        rw [hvalue, size]
        calc (d.digits : ℚ) * (10 : ℚ) ^ d.exponent
            < (10 : ℚ) ^ digitCount d.digits * (10 : ℚ) ^ d.exponent := by
              refine mul_lt_mul_of_pos_right ?_ (zpow_pos (by norm_num) _)
              exact_mod_cast digits_lt_pow_digitCount d.digits
          _ = (10 : ℚ) ^ ((digitCount d.digits : Int) + d.exponent) := by
              rw [zpow_add₀ (by norm_num), zpow_natCast]
          _ ≤ (10 : ℚ) ^ (-400 : Int) := zpow_le_zpow_right₀ (by norm_num) (by omega)
          _ ≤ (2 : ℚ) ^ (-1075 : Int) := by
              rw [zpow_neg, zpow_neg]
              refine inv_anti₀ (zpow_pos two_pos _) ?_
              exact_mod_cast (by decide +kernel : 2 ^ 1075 ≤ 10 ^ 400)
      · rfl

theorem nearestBits_congr (h : d.size = d'.size) : d.nearestBits = d'.nearestBits := by
  rw [nearestBits_eq_rescale, nearestBits_eq_rescale]
  refine Binary.nearestBits_congr (rescale_snd_pos (by decide) one_pos)
    (rescale_snd_pos (by decide) one_pos) ?_
  rw [value_rescale_digits, value_rescale_digits, h]

theorem size_trim (fuel : Nat) (d : Decimal) :
    (d.trim fuel).size = d.size ∧ (d.trim fuel).negative = d.negative := by
  induction fuel generalizing d with
  | zero => exact ⟨rfl, rfl⟩
  | succ fuel ih =>
    rw [trim]
    split
    · rename_i h
      obtain ⟨hsize, hsign⟩ := ih ⟨d.negative, d.digits / 10, d.exponent + 1⟩
      refine ⟨hsize.trans ?_, hsign⟩
      have hdigits : d.digits / 10 * 10 = d.digits := by omega
      unfold size
      rw [zpow_add₀ (by norm_num), zpow_one, mul_comm ((10 : ℚ) ^ d.exponent), ← mul_assoc]
      congr 1
      exact_mod_cast hdigits
    · exact ⟨rfl, rfl⟩

theorem size_ofBinary (b : Binary) : (ofBinary b).size = b.significand * (2 : ℚ) ^ b.exponent := by
  unfold ofBinary
  split
  · rename_i he
    obtain ⟨k, hk⟩ := Int.eq_ofNat_of_zero_le he
    simp only [size, hk, Int.toNat_natCast, Nat.pow_eq, Nat.cast_mul, Nat.cast_pow, Nat.cast_ofNat,
      zpow_natCast, zpow_zero, mul_one]
  · rename_i he
    obtain ⟨k, hk⟩ := Int.eq_ofNat_of_zero_le (a := -b.exponent) (by omega)
    have hexponent : b.exponent = -(k : Int) := by omega
    have hten : (10 : ℚ) ^ k = 5 ^ k * 2 ^ k := by rw [← mul_pow]; norm_num
    simp only [size, hexponent, neg_neg, Int.toNat_natCast, Nat.pow_eq, Nat.cast_mul, Nat.cast_pow,
      Nat.cast_ofNat, zpow_neg, zpow_natCast]
    rw [hten, mul_inv, mul_assoc, ← mul_assoc ((5 : ℚ) ^ k), mul_inv_cancel₀ (by positivity),
      one_mul]

theorem ofCount?_eq_some {bits count : Nat} {lead : Int} (h : ofCount? b bits lead count = some d) :
    d.nearestBits = bits ∧ d.negative = b.negative := by
  obtain ⟨digits, -, hd⟩ := List.exists_of_findSome?_eq_some h
  dsimp only at hd
  split at hd
  · rename_i hbits
    obtain rfl := Option.some.inj hd
    exact ⟨hbits, rfl⟩
  · cases hd

theorem nearestBits_of_size (h : b.IsDouble)
    (hsize : d.size = b.significand * (2 : ℚ) ^ b.exponent) : d.nearestBits = b.bits := by
  rw [nearestBits_eq_rescale, ← h.nearestBits_ratio]
  refine Binary.nearestBits_congr (rescale_snd_pos (by decide) one_pos) b.ratio_snd_pos ?_
  rw [value_rescale_digits, hsize, b.value_ratio]

theorem nearestBits_shortest (h : b.IsDouble) :
    (shortest b).nearestBits = b.bits ∧ (shortest b).negative = b.negative := by
  unfold shortest
  split
  · rename_i hzero
    have hexponent : b.exponent = -1074 := by
      rcases h.full with hfull | hfull
      · omega
      · exact hfull
    refine ⟨?_, rfl⟩
    rw [Binary.bits, hzero, hexponent]
    rfl
  · dsimp only
    generalize hfound : (List.range 17).findSome? _ = found
    obtain ⟨hsize, hsign⟩ := size_trim (digitCount (found.getD (ofBinary b)).digits)
      (found.getD (ofBinary b))
    rw [nearestBits_congr hsize, hsign]
    cases found with
    | some d =>
      obtain ⟨i, -, hd⟩ := List.exists_of_findSome?_eq_some hfound
      obtain ⟨hbits, hnegative⟩ := ofCount?_eq_some hd
      exact ⟨hbits.trans h.nearestBits_ratio, hnegative⟩
    | none =>
      refine ⟨nearestBits_of_size h (size_ofBinary b), ?_⟩
      rw [Option.getD_none, ofBinary]
      split <;> rfl

end

end UnitSheet.Decimal
