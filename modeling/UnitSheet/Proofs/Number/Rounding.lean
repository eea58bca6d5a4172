import UnitSheet.Proofs.Number.Order

set_option autoImplicit false

/-!
Rounding to the multiples of a unit, half to even. Rounding keeps the order of numbers, for one unit
and also where the unit changes: at a power of ten, and between numbers with three decimals and
numbers with four digits.
-/

namespace UnitSheet

/-- The multiple of `unit` that is nearest to `v` is `r`, and an even one if two are as near. -/
def IsRounded (unit v r : ℚ) : Prop :=
  ∃ k : ℤ, r = k * unit ∧ |v - r| ≤ unit / 2 ∧ (|v - r| = unit / 2 → Even k)

section
variable {unit v w r s : ℚ}

theorem IsRounded.neg (h : IsRounded unit v r) : IsRounded unit (-v) (-r) := by
  obtain ⟨k, hr, hnear, heven⟩ := h
  have hdistance : |-v - -r| = |v - r| := by rw [neg_sub_neg, abs_sub_comm]
  refine ⟨-k, by rw [hr]; push_cast; ring, hdistance ▸ hnear, fun htie => ?_⟩
  exact (heven (hdistance ▸ htie)).neg

theorem isRounded_multiple (hunit : 0 < unit) (k : ℤ) : IsRounded unit (k * unit) (k * unit) := by
  refine ⟨k, rfl, ?_, fun htie => ?_⟩
  · rw [sub_self, abs_zero]
    exact (half_pos hunit).le
  · rw [sub_self, abs_zero] at htie
    exact absurd htie (half_pos hunit).ne

/-- Of two numbers out of order, the first would be rounded up and the second down at one tie, to
different even multiples next to each other. -/
theorem IsRounded.mono (hunit : 0 < unit) (hvw : v ≤ w) (hr : IsRounded unit v r)
    (hs : IsRounded unit w s) : r ≤ s := by
  obtain ⟨k, rfl, hknear, hkeven⟩ := hr
  obtain ⟨l, rfl, hlnear, hleven⟩ := hs
  by_contra hlt
  have hlk : l < k := by
    have hmul : (l : ℚ) * unit < k * unit := not_le.1 hlt
    exact_mod_cast lt_of_mul_lt_mul_right hmul hunit.le
  have hstep : (l : ℚ) * unit + unit ≤ k * unit := by
    have hcast : (l : ℚ) + 1 ≤ k := by exact_mod_cast hlk
    nlinarith
  obtain ⟨hkbelow, -⟩ := abs_le.1 hknear
  obtain ⟨-, hlabove⟩ := abs_le.1 hlnear
  have hktie : v - k * unit = -(unit / 2) := by linarith
  have hltie : w - l * unit = unit / 2 := by linarith
  have hk : Even k := hkeven (by rw [hktie, abs_neg, abs_of_pos (half_pos hunit)])
  have hl : Even l := hleven (by rw [hltie, abs_of_pos (half_pos hunit)])
  have hnext : k = l + 1 := by
    have hmul : (k : ℚ) * unit = (l + 1) * unit := by linarith
    exact_mod_cast mul_right_cancel₀ hunit.ne' hmul
  rw [hnext, Int.even_add_one] at hk
  exact hk hl

theorem IsRounded.unique (hunit : 0 < unit) (hr : IsRounded unit v r) (hs : IsRounded unit v s) :
    r = s :=
  le_antisymm (hr.mono hunit le_rfl hs) (hs.mono hunit le_rfl hr)

theorem IsRounded.pos (hr : IsRounded unit v r) (hv : unit / 2 < v) : 0 < r := by
  obtain ⟨k, rfl, hnear, -⟩ := hr
  have habove : 0 < k * unit := by linarith [(abs_le.1 hnear).2]
  exact habove

/-- Which multiple is the nearest is a matter of the part beyond the whole multiples below. -/
theorem isRounded_of_parts {q k : ℕ} {t : ℚ} (hunit : 0 < unit) (hlow : 0 ≤ t) (hhigh : t < 1)
    (hv : v = (q + t) * unit)
    (hk : t < 1 / 2 ∧ k = q ∨ 1 / 2 < t ∧ k = q + 1 ∨ t = 1 / 2 ∧ k = q + q % 2) :
    IsRounded unit v (k * unit) := by
  have hdistance : |v - k * unit| = |(q : ℚ) + t - k| * unit := by
    rw [hv, ← sub_mul, abs_mul, abs_of_pos hunit]
  have hnear : ∀ {d : ℚ}, |(q : ℚ) + t - k| = d → d < 1 / 2 → IsRounded unit v (k * unit) := by
    intro d hd hless
    have hunder : |v - k * unit| < unit / 2 := by
      rw [hdistance, hd]
      nlinarith
    exact ⟨k, by push_cast; rfl, hunder.le, fun htie => absurd htie hunder.ne⟩
  rcases hk with ⟨hless, rfl⟩ | ⟨hmore, rfl⟩ | ⟨htie, hk⟩
  · exact hnear (by rw [add_sub_cancel_left, abs_of_nonneg hlow]) hless
  · refine hnear (d := 1 - t) ?_ (by linarith)
    push_cast
    rw [abs_of_neg (by linarith)]
    ring
  · have hhalf : |(q : ℚ) + t - k| = 1 / 2 := by
      rw [htie, hk]
      rcases Nat.mod_two_eq_zero_or_one q with h | h <;> rw [h] <;> push_cast
      · rw [add_zero, add_sub_cancel_left, abs_of_pos (by norm_num)]
      · rw [abs_of_neg (by linarith)]
        ring
    rw [hhalf, one_div, inv_mul_eq_div] at hdistance
    refine ⟨k, by push_cast; rfl, hdistance.le, fun _ => ?_⟩
    exact (Int.even_coe_nat _).2 (Nat.even_iff.2 (by omega))

theorem isRounded_roundHalfEven {num den : ℕ} (hden : 0 < den) (hunit : 0 < unit)
    (hv : (num : ℚ) / den = v / unit) : IsRounded unit v (roundHalfEven num den * unit) := by
  have hd : (0 : ℚ) < den := Nat.cast_pos.2 hden
  have hparts : (den : ℚ) * (num / den : ℕ) + (num % den : ℕ) = num := by
    exact_mod_cast Nat.div_add_mod num den
  have hless : ((num % den : ℕ) : ℚ) / den < 1 / 2 ↔ 2 * (num % den) < den := by
    rw [div_lt_div_iff₀ hd two_pos, one_mul, mul_comm]
    exact_mod_cast Iff.rfl
  have hmore : 1 / 2 < ((num % den : ℕ) : ℚ) / den ↔ den < 2 * (num % den) := by
    rw [div_lt_div_iff₀ two_pos hd, one_mul, mul_comm]
    exact_mod_cast Iff.rfl
  refine isRounded_of_parts (q := num / den) (t := (num % den : ℕ) / den) hunit (by positivity)
    ((div_lt_one hd).2 (Nat.cast_lt.2 (Nat.mod_lt _ hden))) ?_ ?_
  · rw [eq_div_iff hunit.ne'] at hv
    rw [← hv, ← hparts]
    field_simp
  · unfold roundHalfEven
    split
    · rename_i h
      exact .inl ⟨hless.2 h, rfl⟩
    · rename_i hnot
      split
      · rename_i h
        exact .inr (.inl ⟨hmore.2 h, rfl⟩)
      · rename_i hnot'
        refine .inr (.inr ⟨le_antisymm ?_ ?_, rfl⟩)
        · exact not_lt.1 (mt hmore.1 hnot')
        · exact not_lt.1 (mt hless.1 hnot)

end

/-- The least number that is shown without an exponent; as a double it is slightly more than a
thousandth. -/
def leastFixed : ℚ := exactValue 1e-3

/-- What the last digit of a displayed number counts for: a thousandth, or else the last of four
digits. -/
def displayUnit (v : ℚ) : ℚ :=
  if leastFixed ≤ |v| ∧ |v| < 10 ^ 6 then 1 / 1000 else (10 : ℚ) ^ (Int.log 10 |v| - 3)

theorem ofFloat?_leastFixed : Binary.ofFloat? 1e-3 = some ⟨false, 4611686018427388, -62⟩ := by
  decide +kernel

theorem leastFixed_bounds : 1 / 1000 < leastFixed ∧ leastFixed < 1 / 1000 + 1 / 2000000 := by
  have hvalue : leastFixed = 4611686018427388 / 2 ^ 62 := by
    rw [leastFixed, exactValue_of_ofFloat? ofFloat?_leastFixed]
    norm_num [Binary.value, Binary.size]
  rw [hvalue]
  norm_num

section
variable {v w r s : ℚ}

theorem displayUnit_pos (v : ℚ) : 0 < displayUnit v := by
  unfold displayUnit
  split
  · norm_num
  · exact zpow_pos (by norm_num) _

theorem displayUnit_neg (v : ℚ) : displayUnit (-v) = displayUnit v := by
  rw [displayUnit, displayUnit, abs_neg]

theorem displayUnit_fixed (hlow : leastFixed ≤ v) (hhigh : v < 10 ^ 6) :
    displayUnit v = 1 / 1000 := by
  have hv : 0 < v := lt_of_lt_of_le (by linarith [leastFixed_bounds.1]) hlow
  rw [displayUnit, abs_of_pos hv, if_pos ⟨hlow, hhigh⟩]

theorem displayUnit_scientific (hv : 0 < v) (h : v < leastFixed ∨ 10 ^ 6 ≤ v) :
    displayUnit v = (10 : ℚ) ^ (Int.log 10 v - 3) := by
  rw [displayUnit, abs_of_pos hv, if_neg]
  rintro ⟨hlow, hhigh⟩
  rcases h with h | h
  · exact absurd hlow (not_le.2 h)
  · exact absurd hhigh (not_lt.2 h)

theorem isRounded_pow {j k : ℤ} (h : j ≤ k) :
    IsRounded ((10 : ℚ) ^ j) ((10 : ℚ) ^ k) ((10 : ℚ) ^ k) := by
  obtain ⟨n, hn⟩ := Int.eq_ofNat_of_zero_le (a := k - j) (by omega)
  have hpow : (10 : ℚ) ^ k = ((10 ^ n : ℤ) : ℚ) * (10 : ℚ) ^ j := by
    rw [(by omega : k = n + j), zpow_add₀ (by norm_num), zpow_natCast]
    push_cast
    rfl
  rw [hpow]
  exact isRounded_multiple (zpow_pos (by norm_num) j) _

theorem isRounded_scientific_bounds (hv : 0 < v)
    (hr : IsRounded ((10 : ℚ) ^ (Int.log 10 v - 3)) v r) :
    (10 : ℚ) ^ Int.log 10 v ≤ r ∧ r ≤ (10 : ℚ) ^ (Int.log 10 v + 1) := by
  have hunit : (0 : ℚ) < (10 : ℚ) ^ (Int.log 10 v - 3) := zpow_pos (by norm_num) _
  have hlow : (10 : ℚ) ^ Int.log 10 v ≤ v := Int.zpow_log_le_self (by norm_num) hv
  have hhigh : v < (10 : ℚ) ^ (Int.log 10 v + 1) := Int.lt_zpow_succ_log_self (by norm_num) v
  exact ⟨(isRounded_pow (by omega)).mono hunit hlow hr,
    hr.mono hunit hhigh.le (isRounded_pow (by omega))⟩

/-- Rounded to four digits, a number has four digits, unless it carries to ten thousand. -/
theorem four_digits_of_isRounded {k : ℕ} (hv : 0 < v)
    (h : IsRounded ((10 : ℚ) ^ (Int.log 10 v - 3)) v (k * (10 : ℚ) ^ (Int.log 10 v - 3))) :
    1000 ≤ k ∧ k ≤ 10000 := by
  have hunit : (0 : ℚ) < (10 : ℚ) ^ (Int.log 10 v - 3) := zpow_pos (by norm_num) _
  have hthousand : (10 : ℚ) ^ Int.log 10 v = 1000 * (10 : ℚ) ^ (Int.log 10 v - 3) := by
    rw [zpow_sub₀ (by norm_num)]
    norm_num
    ring
  obtain ⟨hlow, hhigh⟩ := isRounded_scientific_bounds hv h
  rw [zpow_add_one₀ (by norm_num), hthousand, mul_right_comm] at hhigh
  rw [hthousand] at hlow
  have hleast : ((1000 : ℕ) : ℚ) ≤ k := by exact_mod_cast le_of_mul_le_mul_right hlow hunit
  have hmost : (k : ℚ) ≤ ((1000 * 10 : ℕ) : ℚ) := by
    exact_mod_cast le_of_mul_le_mul_right hhigh hunit
  exact ⟨Nat.cast_le.1 hleast, Nat.cast_le.1 hmost⟩

theorem displayUnit_lt (hv : 0 < v) : displayUnit v < v := by
  by_cases h : leastFixed ≤ v ∧ v < 10 ^ 6
  · rw [displayUnit_fixed h.1 h.2]
    exact leastFixed_bounds.1.trans_le h.1
  · rw [displayUnit_scientific hv (by rwa [not_and_or, not_le, not_lt] at h)]
    calc (10 : ℚ) ^ (Int.log 10 v - 3) < (10 : ℚ) ^ Int.log 10 v :=
          zpow_lt_zpow_right₀ (by norm_num) (by omega)
      _ ≤ v := Int.zpow_log_le_self (by norm_num) hv

end

/-- Rounded in its own unit, `v` is `r`. -/
def IsShown (v r : ℚ) : Prop := IsRounded (displayUnit v) v r

section
variable {v w r s : ℚ}

theorem IsShown.neg (h : IsShown v r) : IsShown (-v) (-r) := by
  rw [IsShown, displayUnit_neg]
  exact IsRounded.neg h

theorem IsShown.unique (hr : IsShown v r) (hs : IsShown v s) : r = s :=
  IsRounded.unique (displayUnit_pos v) hr hs

theorem isShown_zero : IsShown 0 0 := by
  have h := isRounded_multiple (displayUnit_pos 0) 0
  rwa [Int.cast_zero, zero_mul] at h

theorem IsShown.pos (hv : 0 < v) (h : IsShown v r) : 0 < r :=
  IsRounded.pos h ((half_lt_self (displayUnit_pos v)).trans (displayUnit_lt hv))

theorem IsShown.sign_eq (h : IsShown v r) : SignType.sign r = SignType.sign v := by
  rcases lt_trichotomy v 0 with hv | rfl | hv
  · have hr : 0 < -r := h.neg.pos (neg_pos.2 hv)
    rw [sign_neg hv, sign_neg (neg_pos.1 hr)]
  · rw [h.unique isShown_zero]
  · rw [sign_pos hv, sign_pos (h.pos hv)]

/-- `leastFixed` is a thousandth in either notation. -/
theorem isRounded_leastFixed : IsRounded ((10 : ℚ) ^ (-6 : ℤ)) leastFixed (1 / 1000) := by
  obtain ⟨hleast, hleast'⟩ := leastFixed_bounds
  have hunit : (10 : ℚ) ^ (-6 : ℤ) = 1 / 1000000 := by norm_num
  have hnear : |leastFixed - 1 / 1000| < (10 : ℚ) ^ (-6 : ℤ) / 2 := by
    rw [hunit, abs_of_pos (by linarith)]
    linarith
  exact ⟨1000, by rw [hunit]; norm_num, hnear.le, fun htie => absurd htie hnear.ne⟩

theorem IsShown.le_of_lt_leastFixed (hv : 0 < v) (hlow : v < leastFixed) (h : IsShown v r) :
    r ≤ 1 / 1000 := by
  have hthousandth : (10 : ℚ) ^ (-3 : ℤ) = 1 / 1000 := by norm_num
  have hlog : Int.log 10 v < -2 := by
    refine (Int.lt_zpow_iff_log_lt (by norm_num) hv).1 ?_
    have hhundredth : ((10 : ℕ) : ℚ) ^ (-2 : ℤ) = 1 / 100 := by norm_num
    rw [hhundredth]
    linarith [leastFixed_bounds.2]
  rw [IsShown, displayUnit_scientific hv (.inl hlow)] at h
  rcases lt_or_eq_of_le (Int.le_sub_one_of_lt hlog) with hless | heq
  · rw [← hthousandth]
    exact (isRounded_scientific_bounds hv h).2.trans
      (zpow_le_zpow_right₀ (by norm_num) (by omega))
  · rw [heq] at h
    exact h.mono (zpow_pos (by norm_num) _) hlow.le isRounded_leastFixed

theorem IsShown.bounds_of_fixed (hlow : leastFixed ≤ v) (hhigh : v < 10 ^ 6) (h : IsShown v r) :
    1 / 1000 ≤ r ∧ r ≤ 10 ^ 6 := by
  have hunit : (0 : ℚ) < 1 / 1000 := by norm_num
  rw [IsShown, displayUnit_fixed hlow hhigh] at h
  have hone := isRounded_multiple hunit 1
  have hmillion := isRounded_multiple hunit (10 ^ 9)
  have hpow : ((10 ^ 9 : ℤ) : ℚ) * (1 / 1000) = 10 ^ 6 := by norm_num
  rw [Int.cast_one, one_mul] at hone
  rw [hpow] at hmillion
  exact ⟨hone.mono hunit (leastFixed_bounds.1.le.trans hlow) h, h.mono hunit hhigh.le hmillion⟩

theorem IsShown.ge_of_ge_million (hv : 10 ^ 6 ≤ v) (h : IsShown v r) : 10 ^ 6 ≤ r := by
  have hpos : 0 < v := lt_of_lt_of_le (by norm_num) hv
  rw [IsShown, displayUnit_scientific hpos (.inr hv)] at h
  have hlog : 6 ≤ Int.log 10 v :=
    (Int.zpow_le_iff_le_log (by norm_num) hpos).1 (by exact_mod_cast hv)
  calc (10 : ℚ) ^ 6 = (10 : ℚ) ^ (6 : ℤ) := by norm_num
    _ ≤ (10 : ℚ) ^ Int.log 10 v := zpow_le_zpow_right₀ (by norm_num) hlog
    _ ≤ r := (isRounded_scientific_bounds hpos h).1

/-- With an exponent, numbers of one length share their unit, and between those of two lengths
there is a power of ten. -/
theorem IsShown.mono_scientific (hpos : 0 < v) (hvw : v ≤ w) (hv : v < leastFixed ∨ 10 ^ 6 ≤ v)
    (hw : w < leastFixed ∨ 10 ^ 6 ≤ w) (hr : IsShown v r) (hs : IsShown w s) : r ≤ s := by
  have hpos' : 0 < w := hpos.trans_le hvw
  rw [IsShown, displayUnit_scientific hpos hv] at hr
  rw [IsShown, displayUnit_scientific hpos' hw] at hs
  rcases (Int.log_mono_right hpos hvw (b := 10)).eq_or_lt with hlog | hlog
  · rw [← hlog] at hs
    exact hr.mono (zpow_pos (by norm_num) _) hvw hs
  · calc r ≤ (10 : ℚ) ^ (Int.log 10 v + 1) := (isRounded_scientific_bounds hpos hr).2
      _ ≤ (10 : ℚ) ^ Int.log 10 w := zpow_le_zpow_right₀ (by norm_num) hlog
      _ ≤ s := (isRounded_scientific_bounds hpos' hs).1

/-- The two notations meet at a thousandth and at a million, which are shown as they are. -/
theorem IsShown.mono_of_pos (hpos : 0 < v) (hvw : v ≤ w) (hr : IsShown v r) (hs : IsShown w s) :
    r ≤ s := by
  have hrange : (1 : ℚ) / 1000 ≤ 10 ^ 6 := by norm_num
  rcases lt_or_ge v leastFixed with hv | hv
  · have hthousandth : r ≤ 1 / 1000 := hr.le_of_lt_leastFixed hpos hv
    rcases lt_or_ge w leastFixed with hw | hw
    · exact hr.mono_scientific hpos hvw (.inl hv) (.inl hw) hs
    rcases lt_or_ge w (10 ^ 6) with hw' | hw'
    · exact hthousandth.trans (hs.bounds_of_fixed hw hw').1
    · exact hthousandth.trans (hrange.trans (hs.ge_of_ge_million hw'))
  rcases lt_or_ge v (10 ^ 6) with hv' | hv'
  · rcases lt_or_ge w (10 ^ 6) with hw' | hw'
    · rw [IsShown, displayUnit_fixed hv hv'] at hr
      rw [IsShown, displayUnit_fixed (hv.trans hvw) hw'] at hs
      exact hr.mono (by norm_num) hvw hs
    · exact (hr.bounds_of_fixed hv hv').2.trans (hs.ge_of_ge_million hw')
  · exact hr.mono_scientific hpos hvw (.inr hv') (.inr (hv'.trans hvw)) hs

theorem IsShown.mono (hvw : v ≤ w) (hr : IsShown v r) (hs : IsShown w s) : r ≤ s := by
  rcases lt_or_ge 0 v with hv | hv
  · exact hr.mono_of_pos hv hvw hs
  rcases lt_or_ge w 0 with hw | hw
  · exact neg_le_neg_iff.1 (hs.neg.mono_of_pos (neg_pos.2 hw) (neg_le_neg hvw) hr.neg)
  · have hr0 : r ≤ 0 := sign_nonpos_iff.1 (hr.sign_eq ▸ sign_nonpos_iff.2 hv)
    have hs0 : 0 ≤ s := sign_nonneg_iff.1 (hs.sign_eq ▸ sign_nonneg_iff.2 hw)
    exact hr0.trans hs0

end

end UnitSheet
