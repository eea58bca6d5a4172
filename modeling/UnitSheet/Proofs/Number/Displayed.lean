import UnitSheet.Display
import UnitSheet.Proofs.Number.Numeral
import UnitSheet.Proofs.Number.Rounding
import UnitSheet.Proofs.Token.Pieces

set_option autoImplicit false

namespace UnitSheet

theorem dropFractionZeros_zero (cs : List Char) :
    dropFractionZeros (cs ++ ['0']) = dropFractionZeros cs := by
  simp [dropFractionZeros]

theorem dropFractionZeros_last {c : Char} (hzero : c ≠ '0') (hpoint : c ≠ '.') (cs : List Char) :
    dropFractionZeros (cs ++ [c]) = cs ++ [c] := by
  simp [dropFractionZeros, hzero, hpoint]

theorem dropFractionZeros_point {cs : List Char} (h : ∀ c ∈ cs, c.isDigit = true) :
    dropFractionZeros (cs ++ ['.']) = cs := by
  have hhead : ∀ c ∈ cs.reverse.head?, (c == '.') = false := by
    intro c hc
    have hmem : c ∈ cs := List.mem_reverse.1 (List.mem_of_mem_head? hc)
    exact beq_eq_false_iff_ne.2 (Numeral.digit_ne (h c hmem) rfl)
  have hkept : cs.reverse.dropWhile (· == '.') = cs.reverse := (span_of_head hhead).2
  simp [dropFractionZeros, hkept]

theorem dropFractionZeros_fraction {whole fraction : List Char}
    (hwhole : ∀ c ∈ whole, c.isDigit = true) (hfraction : ∀ c ∈ fraction, c.isDigit = true) :
    ∃ kept k, fraction = kept ++ List.replicate k '0' ∧
      dropFractionZeros (whole ++ '.' :: fraction) = Numeral.chars ⟨whole, kept, none⟩ := by
  induction fraction using List.reverseRecOn with
  | nil =>
    refine ⟨[], 0, rfl, ?_⟩
    rw [dropFractionZeros_point hwhole]
    simp [Numeral.chars, Numeral.point, Numeral.mark]
  | append_singleton fraction c ih =>
    have hc : c.isDigit = true := hfraction c (List.mem_append_right _ (List.mem_singleton_self c))
    have hmove : whole ++ '.' :: (fraction ++ [c]) = (whole ++ '.' :: fraction) ++ [c] := by simp
    rw [hmove]
    by_cases hzero : c = '0'
    · subst hzero
      obtain ⟨kept, k, hkept, hchars⟩ := ih fun d hd => hfraction d (List.mem_append_left _ hd)
      refine ⟨kept, k + 1, ?_, ?_⟩
      · rw [hkept, List.replicate_succ', List.append_assoc]
      · rw [dropFractionZeros_zero, hchars]
    · refine ⟨fraction ++ [c], 0, by simp, ?_⟩
      rw [dropFractionZeros_last hzero (Numeral.digit_ne hc rfl)]
      simp [Numeral.chars, Numeral.point, Numeral.mark]

namespace Numeral

theorem size_zeros (whole kept : List Char) (k : ℕ) :
    (decimal ⟨whole, kept ++ List.replicate k '0', none⟩ false).size =
      (decimal ⟨whole, kept, none⟩ false).size := by
  have hvalue : digitsValue (whole ++ (kept ++ List.replicate k '0')) =
      digitsValue (whole ++ kept) * 10 ^ k := by
    rw [← List.append_assoc, digitsValue_append, digitsValue_zeros, List.length_replicate, add_zero]
  have hpow : (10 : ℚ) ^ (-(kept.length : ℤ)) =
      10 ^ k * (10 : ℚ) ^ (-((kept ++ List.replicate k '0').length : ℤ)) := by
    rw [List.length_append, List.length_replicate, ← zpow_natCast, ← zpow_add₀ (by norm_num)]
    congr 1
    push_cast
    ring
  simp only [decimal, shift, Decimal.size, zero_sub, hvalue, hpow]
  push_cast
  ring

end Numeral

theorem exists_numeral_fixed (rounded places : ℕ) : ∃ n : Numeral, n.IsWritten ∧
    dropFractionZeros (placePoint (Nat.toDigits 10 rounded) places) = n.chars ∧
      (n.decimal false).size = rounded * (10 : ℚ) ^ (-(places : ℤ)) := by
  let d : Decimal := ⟨false, rounded, -places⟩
  have hplaces : (-d.exponent).toNat = places := by simp [d]
  have hlength : places < d.paddedDigits.length := hplaces ▸ d.length_paddedDigits
  let whole := d.paddedDigits.take (d.paddedDigits.length - places)
  let fraction := d.paddedDigits.drop (d.paddedDigits.length - places)
  have hparts : placePoint (Nat.toDigits 10 rounded) places = whole ++ '.' :: fraction := by
    simp only [placePoint, whole, fraction, Decimal.paddedDigits, hplaces, d]
  have hwhole : ∀ c ∈ whole, c.isDigit = true :=
    fun c hc => d.isDigit_of_mem_paddedDigits (List.mem_of_mem_take hc)
  have hfraction : ∀ c ∈ fraction, c.isDigit = true :=
    fun c hc => d.isDigit_of_mem_paddedDigits (List.mem_of_mem_drop hc)
  obtain ⟨kept, k, hkept, hchars⟩ := dropFractionZeros_fraction hwhole hfraction
  refine ⟨⟨whole, kept, none⟩, ⟨?_, hwhole, fun c hc => ?_, fun _ _ h => by cases h⟩, ?_, ?_⟩
  · refine List.ne_nil_of_length_pos ?_
    rw [List.length_take]
    omega
  · exact hfraction c (hkept ▸ List.mem_append_left _ hc)
  · rw [hparts, hchars]
  · have hfractionLength : fraction.length = places := by
      rw [List.length_drop]
      omega
    rw [← Numeral.size_zeros whole kept k, ← hkept]
    simp only [Numeral.decimal, Numeral.shift, Decimal.size, hfractionLength, zero_sub, whole,
      fraction, List.take_append_drop, d.digitsValue_paddedDigits, d]

theorem le_digits_of_digitCount {n : ℕ} (h : 0 < n) : 10 ^ (digitCount n - 1) ≤ n := by
  rcases Nat.eq_or_lt_of_le (Nat.length_toDigits_pos (b := 10) (n := n)) with hone | hmore
  · rw [digitCount, ← hone]
    exact h
  · by_contra hless
    have hpos : 0 < digitCount n - 1 := Nat.sub_pos_of_lt hmore
    have hle : digitCount n ≤ digitCount n - 1 :=
      (Nat.length_toDigits_le_iff (by decide) hpos).2 (not_le.1 hless)
    omega

theorem digitCount_eq {n k : ℕ} (hlow : 10 ^ k ≤ n) (hhigh : n < 10 ^ (k + 1)) :
    digitCount n = k + 1 := by
  refine le_antisymm ((Nat.length_toDigits_le_iff (by decide) k.succ_pos).2 hhigh) ?_
  by_contra hless
  have hsmall : n < 10 ^ k :=
    (Decimal.digits_lt_pow_digitCount n).trans_le (Nat.pow_le_pow_right (by decide) (by omega))
  omega

theorem floorLogTen_eq_log {num den : ℕ} (hnum : 0 < num) (hden : 0 < den) :
    floorLogTen num den = Int.log 10 (num / den : ℚ) := by
  have hcount : ∀ n, digitCount n - 1 + 1 = digitCount n :=
    fun n => Nat.sub_add_cancel Nat.length_toDigits_pos
  have hbound : ∀ n, n < 10 ^ (digitCount n - 1 + 1) := by
    intro n
    rw [hcount]
    exact Decimal.digits_lt_pow_digitCount n
  obtain ⟨hlow, hhigh⟩ := ratio_bounds (by decide) hden (le_digits_of_digitCount hnum) (hbound num)
    (le_digits_of_digitCount hden) (hbound den)
  have hguess : ((digitCount num - 1 : ℕ) : ℤ) - (digitCount den - 1 : ℕ) =
      digitCount num - digitCount den := by
    have := hcount num
    have := hcount den
    omega
  rw [hguess] at hlow hhigh
  exact settlePower_eq_log (by decide) hnum hden hlow hhigh

namespace Binary

variable {b : Binary}

theorem ratio_eq_size (b : Binary) : (b.ratio.1 : ℚ) / b.ratio.2 = b.size := b.value_ratio

theorem value_eq_of_signed (b : Binary) :
    b.value = if b.negative && b.significand != 0 then -b.size else b.size := by
  by_cases hzero : b.significand = 0
  · have hsize : b.size = 0 := size_eq_zero_iff.2 hzero
    simp [value, hsize]
  · rw [value, bne_iff_ne.2 hzero, Bool.and_true]

theorem ratio_fst_pos (h : 0 < b.size) : 0 < b.ratio.1 := by
  rw [← ratio_eq_size] at h
  rcases Nat.eq_zero_or_pos b.ratio.1 with hzero | hpos
  · rw [hzero, Nat.cast_zero, zero_div] at h
    exact absurd h (lt_irrefl 0)
  · exact hpos

end Binary

/-- The leading digits are four, and with their exponent they are the number rounded to them. -/
theorem leadingDigits_isRounded {b : Binary} (h : 0 < b.size) : ∃ digits e,
    leadingDigits b = (digits, e) ∧ 1000 ≤ digits ∧ digits < 10000 ∧
      IsRounded ((10 : ℚ) ^ (Int.log 10 b.size - 3)) b.size (digits * (10 : ℚ) ^ (e - 3)) := by
  let e := Int.log 10 b.size
  let scaled := rescale 10 b.ratio.1 b.ratio.2 (e - 3)
  have hlog : floorLogTen b.ratio.1 b.ratio.2 = e := by
    rw [floorLogTen_eq_log (Binary.ratio_fst_pos h) b.ratio_snd_pos, b.ratio_eq_size]
  have hunit : (0 : ℚ) < (10 : ℚ) ^ (e - 3) := zpow_pos (by norm_num) _
  have hrounded : IsRounded ((10 : ℚ) ^ (e - 3)) b.size
      (roundHalfEven scaled.1 scaled.2 * (10 : ℚ) ^ (e - 3)) := by
    refine isRounded_roundHalfEven (rescale_snd_pos (by decide) b.ratio_snd_pos) hunit ?_
    rw [value_rescale (by decide), b.ratio_eq_size, Nat.cast_ofNat]
  obtain ⟨hlow, hhigh⟩ := four_digits_of_isRounded h hrounded
  by_cases hcarry : roundHalfEven scaled.1 scaled.2 = 10000
  · refine ⟨1000, e + 1, ?_, le_rfl, by decide, ?_⟩
    · rw [leadingDigits, hlog]
      exact if_pos hcarry
    · have hsame : ((1000 : ℕ) : ℚ) * (10 : ℚ) ^ (e + 1 - 3) =
          (10000 : ℕ) * (10 : ℚ) ^ (e - 3) := by
        rw [add_sub_right_comm, zpow_add_one₀ (by norm_num)]
        push_cast
        ring
      rwa [hsame, ← hcarry]
  · refine ⟨roundHalfEven scaled.1 scaled.2, e, ?_, hlow, by omega, hrounded⟩
    rw [leadingDigits, hlog]
    exact if_neg hcarry

theorem isFixed_iff {x : Float} {b : Binary} (h : Binary.Stands x b) :
    (decide (1e-3 ≤ x.abs) && decide (x.abs < 1e6)) = true ↔
      leastFixed ≤ b.size ∧ b.size < 10 ^ 6 := by
  have hmillion : Binary.ofFloat? 1e6 = some ⟨false, 8589934592000000, -33⟩ := by decide +kernel
  have hvalue : Binary.value ⟨false, 8589934592000000, -33⟩ = 10 ^ 6 := by
    norm_num [Binary.value, Binary.size]
  have hleastFixed : leastFixed = Binary.value ⟨false, 4611686018427388, -62⟩ :=
    exactValue_of_ofFloat? ofFloat?_leastFixed
  rw [Bool.and_eq_true, decide_eq_true_iff, decide_eq_true_iff,
    (Binary.stands_of_ofFloat? ofFloat?_leastFixed).le_iff h.abs,
    h.abs.lt_iff (Binary.stands_of_ofFloat? hmillion), hvalue, ← hleastFixed,
    b.value_magnitude]

theorem beq_zero_iff {x : Float} {b : Binary} (h : Binary.Stands x b) :
    (x == 0) = true ↔ b.size = 0 := by
  have hzero : Binary.ofFloat? 0 = some ⟨false, 0, -1074⟩ := by decide +kernel
  have hvalue : Binary.value ⟨false, 0, -1074⟩ = 0 := by
    norm_num [Binary.value, Binary.size]
  rw [h.beq_iff (Binary.stands_of_ofFloat? hzero), hvalue, ← abs_eq_zero, b.abs_value]

theorem fixedNumber_eq_numeral {b : Binary} (hlow : leastFixed ≤ b.size) (hhigh : b.size < 10 ^ 6) :
    ∃ n : Numeral, n.IsWritten ∧ IsShown b.size (n.decimal false).size ∧
      fixedNumber b = Decimal.signText b.negative ++ n.chars := by
  obtain ⟨n, hn, hchars, hsize⟩ :=
    exists_numeral_fixed (roundHalfEven (1000 * b.ratio.1) b.ratio.2) 3
  have hunit : (10 : ℚ) ^ (-((3 : ℕ) : ℤ)) = 1 / 1000 := by norm_num
  refine ⟨n, hn, ?_, by rw [fixedNumber, hchars]⟩
  rw [IsShown, displayUnit_fixed hlow hhigh, hsize, hunit]
  refine isRounded_roundHalfEven b.ratio_snd_pos (by norm_num) ?_
  rw [← b.ratio_eq_size]
  push_cast
  ring

theorem scientificNumber_eq_numeral {b : Binary} (hpos : 0 < b.size)
    (hrange : b.size < leastFixed ∨ 10 ^ 6 ≤ b.size) :
    ∃ n : Numeral, n.IsWritten ∧ IsShown b.size (n.decimal false).size ∧
      scientificNumber b = Decimal.signText b.negative ++ n.chars := by
  obtain ⟨digits, e, hleading, hlow, hhigh, hrounded⟩ := leadingDigits_isRounded hpos
  refine ⟨pointedNumeral digits (decide (e < 0)) (Nat.toDigits 10 e.natAbs),
    isWritten_pointedNumeral _ _ Nat.toDigits_ne_nil fun _ hc => isDigit_of_mem_toDigits hc, ?_, ?_⟩
  · rw [IsShown, displayUnit_scientific hpos hrange, size_pointedNumeral _ (digitsValue_toDigits _),
      digitCount_eq (k := 3) hlow hhigh]
    exact hrounded
  · rw [scientificNumber, hleading, chars_pointedNumeral]
    simp only [decide_eq_true_eq]
    exact List.append_assoc _ _ _

/-- The text of a double is a sign, unless it is zero, and a numeral that stands for the rounded
magnitude. -/
theorem displayNumber_eq_numeral {x : Float} {b : Binary} (h : Binary.ofFloat? x = some b) :
    ∃ n : Numeral, n.IsWritten ∧ IsShown b.size (n.decimal false).size ∧
      (displayNumber x).toList =
        Decimal.signText (b.negative && b.significand != 0) ++ n.chars := by
  have hstands := Binary.stands_of_ofFloat? h
  rw [displayNumber, h]
  dsimp only
  split
  · rename_i hzero
    have hsize : b.size = 0 := (beq_zero_iff hstands).1 hzero
    refine ⟨wholeNumeral 0, isWritten_wholeNumeral 0, ?_, ?_⟩
    · rw [hsize, size_wholeNumeral, Nat.cast_zero]
      exact isShown_zero
    · rw [Binary.size_eq_zero_iff.1 hsize, bne_self_eq_false, Bool.and_false]
      rfl
  rename_i hzero
  have hpos : 0 < b.size := b.size_nonneg.lt_of_ne' (mt (beq_zero_iff hstands).2 hzero)
  rw [bne_iff_ne.2 (Binary.size_pos_iff.1 hpos), Bool.and_true]
  split
  · rename_i hfixed
    obtain ⟨hlow, hhigh⟩ := (isFixed_iff hstands).1 hfixed
    rw [String.toList_ofList]
    exact fixedNumber_eq_numeral hlow hhigh
  · rename_i hfixed
    have hrange := mt (isFixed_iff hstands).2 hfixed
    rw [not_and_or, not_le, not_lt] at hrange
    rw [String.toList_ofList]
    exact scientificNumber_eq_numeral hpos hrange

def Decimal.value (d : Decimal) : ℚ := if d.negative then -d.size else d.size

/-- The number that a text denotes, which no double need be. -/
def denoted (text : String) : ℚ := (Decimal.ofChars text.toList).value

theorem signText_eq_signChars (negative : Bool) :
    Decimal.signText negative = Numeral.signChars (if negative then some true else none) := by
  cases negative <;> rfl

section
variable {x y : Float}

theorem exists_sign_numeral (hx : x.isFinite = true) : ∃ sign, ∃ n : Numeral, n.IsWritten ∧
    (displayNumber x).toList = Numeral.signChars sign ++ n.chars ∧
      IsShown (exactValue x) (n.decimal (sign == some true)).value := by
  obtain ⟨b, hb⟩ := Binary.exists_ofFloat? hx
  obtain ⟨n, hn, hshown, htext⟩ := displayNumber_eq_numeral hb
  rw [signText_eq_signChars] at htext
  refine ⟨_, n, hn, htext, ?_⟩
  rw [exactValue_of_ofFloat? hb, b.value_eq_of_signed]
  cases b.negative && b.significand != 0 with
  | false => exact hshown
  | true => exact hshown.neg

theorem isShown_denoted (hx : x.isFinite = true) :
    IsShown (exactValue x) (denoted (displayNumber x)) := by
  obtain ⟨sign, n, hn, htext, hshown⟩ := exists_sign_numeral hx
  rw [denoted, htext, hn.ofChars_chars]
  exact hshown

theorem pieces_displayNumber (hx : x.isFinite = true) :
    pieces none (displayNumber x).toList =
      [.token (.number (readNumber (displayNumber x).toList)) (displayNumber x).toList] := by
  obtain ⟨sign, n, hn, htext, -⟩ := exists_sign_numeral hx
  have hstart : signFollows none = true := rfl
  have hend : IsEnd [] := by simp [IsEnd]
  have hunit : unitBehind [] = ([], []) := unitBehind_of_isAlpha (by simp)
  have hpieces := pieces_number hn sign hstart hend hunit
  rw [List.append_nil] at hpieces
  rw [htext, hpieces]
  simp [pieces]

/-- A displayed number denotes the double rounded in its own unit and no other number. It has the
sign of the double, zero for zero only; the denoted numbers are in the order of the doubles; and
the text is one number token. -/
theorem displayNumber_faithful (hx : x.isFinite = true) (hy : y.isFinite = true) :
    (∀ r, IsRounded (displayUnit (exactValue x)) (exactValue x) r ↔ denoted (displayNumber x) = r) ∧
    SignType.sign (denoted (displayNumber x)) = SignType.sign (exactValue x) ∧
    (x ≤ y → exactValue x ≤ exactValue y ∧
      denoted (displayNumber x) ≤ denoted (displayNumber y)) ∧
    (lex (displayNumber x)).tokens =
      [⟨.number (readNumber (displayNumber x).toList), displayNumber x, 0⟩] ∧
    (lex (displayNumber x)).strays = [] := by
  have hshown := isShown_denoted hx
  refine ⟨fun r => ⟨fun hr => hshown.unique hr, fun hr => hr ▸ hshown⟩, hshown.sign_eq,
    fun hle => ?_, ?_, ?_⟩
  · have hvalues := (le_iff_exactValue_le hx hy).1 hle
    exact ⟨hvalues, hshown.mono hvalues (isShown_denoted hy)⟩
  · rw [tokens_lex, pieces_displayNumber hx]
    simp [placedTokens, String.ofList_toList]
  · rw [strays_lex_eq, pieces_displayNumber hx]
    rfl

/-- At the lower seam: the first number is rounded to four digits and carries to a thousandth, the
second one is rounded to three decimals. -/
theorem displayNumber_faithful_seam :
    (9.9999e-4 : Float).isFinite = true ∧ (1e-3 : Float).isFinite = true ∧
    (9.9999e-4 : Float) ≤ 1e-3 ∧ displayNumber 9.9999e-4 = "1.000e-3" ∧
    (∀ r, IsRounded (displayUnit (exactValue 9.9999e-4)) (exactValue 9.9999e-4) r ↔
      denoted (displayNumber 9.9999e-4) = r) ∧
    SignType.sign (denoted (displayNumber 9.9999e-4)) = SignType.sign (exactValue 9.9999e-4) ∧
    denoted (displayNumber 9.9999e-4) ≤ denoted (displayNumber 1e-3) ∧
    (lex (displayNumber 9.9999e-4)).tokens =
      [⟨.number (readNumber (displayNumber 9.9999e-4).toList), displayNumber 9.9999e-4, 0⟩] := by
  have hx : (9.9999e-4 : Float).isFinite = true := by decide +kernel
  have hy : (1e-3 : Float).isFinite = true := by decide +kernel
  have hle : (9.9999e-4 : Float) ≤ 1e-3 := by decide +kernel
  obtain ⟨hrounded, hsign, hordered, htokens, -⟩ := displayNumber_faithful hx hy
  exact ⟨hx, hy, hle, by decide +kernel, hrounded, hsign, (hordered hle).2, htokens⟩

/-- Just below the upper seam three decimals carry to a million, which keeps its zeros. -/
example : displayNumber 999999.9996 = "1000000" := by decide +kernel

end

end UnitSheet
