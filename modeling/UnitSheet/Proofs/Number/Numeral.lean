import UnitSheet.Number.Text
import UnitSheet.Proofs.Number.Shortest
import UnitSheet.Proofs.Text.Ascii

set_option autoImplicit false

namespace UnitSheet

/-- The parts of a number without its sign: digits, those behind the point and the power of ten. -/
structure Numeral where
  whole : List Char
  fraction : List Char
  power : Option (Bool × List Char)

namespace Numeral

def point (n : Numeral) : List Char := if n.fraction = [] then [] else '.' :: n.fraction

def mark (n : Numeral) : List Char :=
  match n.power with
  | none => []
  | some (negative, digits) => 'e' :: (if negative then '-' else '+') :: digits

def chars (n : Numeral) : List Char := n.whole ++ (n.point ++ n.mark)

structure IsWritten (n : Numeral) : Prop where
  whole_ne : n.whole ≠ []
  whole : ∀ c ∈ n.whole, c.isDigit = true
  fraction : ∀ c ∈ n.fraction, c.isDigit = true
  power : ∀ negative digits, n.power = some (negative, digits) →
    digits ≠ [] ∧ ∀ c ∈ digits, c.isDigit = true

def shift (n : Numeral) : Int :=
  match n.power with
  | none => 0
  | some (negative, digits) => if negative then -(digitsValue digits : Int) else digitsValue digits

def decimal (n : Numeral) (negative : Bool) : Decimal :=
  ⟨negative, digitsValue (n.whole ++ n.fraction), n.shift - n.fraction.length⟩

end Numeral

theorem digitsValue_append (cs ds : List Char) :
    digitsValue (cs ++ ds) = digitsValue cs * 10 ^ ds.length + digitsValue ds := by
  unfold digitsValue
  rw [List.foldl_append]
  generalize cs.foldl (fun n c => 10 * n + (digitValue? c).getD 0) 0 = n
  induction ds using List.reverseRecOn with
  | nil => simp
  | append_singleton ds d ih =>
    simp only [List.foldl_append, List.foldl_cons, List.foldl_nil, List.length_append,
      List.length_singleton, ih, pow_succ]
    ring

theorem digitsValue_zeros (k : Nat) : digitsValue (List.replicate k '0') = 0 := by
  induction k with
  | zero => rfl
  | succ k ih =>
    rw [List.replicate_succ', digitsValue_append, ih]
    rfl

theorem isDigit_of_mem_zeros {k : Nat} {c : Char} (h : c ∈ List.replicate k '0') :
    c.isDigit = true := by
  rw [List.eq_of_mem_replicate h]
  rfl

theorem span_of_head {p : Char → Bool} {cs : List Char} (h : ∀ c ∈ cs.head?, p c = false) :
    cs.takeWhile p = [] ∧ cs.dropWhile p = cs := by
  cases cs with
  | nil => exact ⟨rfl, rfl⟩
  | cons c cs =>
    have hc : p c = false := h c rfl
    simp [hc]

theorem span_append {p : Char → Bool} {cs rest : List Char} (h : ∀ c ∈ cs, p c = true)
    (hrest : ∀ c ∈ rest.head?, p c = false) :
    (cs ++ rest).takeWhile p = cs ∧ (cs ++ rest).dropWhile p = rest := by
  obtain ⟨htake, hdrop⟩ := span_of_head hrest
  rw [List.takeWhile_append_of_pos h, List.dropWhile_append_of_pos h, htake, hdrop,
    List.append_nil]
  exact ⟨rfl, rfl⟩

def unsigned : List Char → List Char
  | '-' :: rest => rest
  | '+' :: rest => rest
  | rest => rest

theorem unsigned_of_isDigit {c : Char} (h : c.isDigit = true) (cs : List Char) :
    unsigned (c :: cs) = c :: cs := by
  unfold unsigned
  split
  · rename_i heq
    obtain ⟨rfl, -⟩ := List.cons.inj heq
    cases h
  · rename_i heq
    obtain ⟨rfl, -⟩ := List.cons.inj heq
    cases h
  · rfl

/-- A number is read from what stands before the exponent mark and what stands behind it. -/
theorem ofChars_eq {cs mantissa power : List Char}
    (hmantissa : (unsigned cs).takeWhile (fun c => !(c == 'e' || c == 'E')) = mantissa)
    (hpower : ((unsigned cs).dropWhile fun c => !(c == 'e' || c == 'E')).drop 1 = power) :
    Decimal.ofChars cs = ⟨cs.head? == some '-',
      digitsValue (mantissa.takeWhile (· != '.') ++ (mantissa.dropWhile (· != '.')).drop 1),
      (if power.head? == some '-' then -(digitsValue (unsigned power) : Int)
        else digitsValue (unsigned power)) - ((mantissa.dropWhile (· != '.')).drop 1).length⟩ := by
  rw [← hmantissa, ← hpower]
  rfl

namespace Numeral

variable {n : Numeral}

def signChars : Option Bool → List Char
  | none => []
  | some true => ['-']
  | some false => ['+']

theorem digit_ne {c d : Char} (hc : c.isDigit = true) (hd : d.isDigit = false) : c ≠ d := by
  rintro rfl
  rw [hc] at hd
  cases hd

theorem IsWritten.exists_cons (h : n.IsWritten) :
    ∃ c cs, n.chars = c :: cs ∧ c.isDigit = true := by
  obtain ⟨c, cs, hwhole⟩ := List.exists_cons_of_ne_nil h.whole_ne
  exact ⟨c, cs ++ (n.point ++ n.mark), by rw [chars, hwhole]; rfl,
    h.whole c (hwhole ▸ List.mem_cons_self)⟩

theorem IsWritten.span_chars (h : n.IsWritten) :
    n.chars.takeWhile (fun c => !(c == 'e' || c == 'E')) = n.whole ++ n.point ∧
      n.chars.dropWhile (fun c => !(c == 'e' || c == 'E')) = n.mark := by
  have hdigit : ∀ c : Char, c.isDigit = true → (!(c == 'e' || c == 'E')) = true := by
    intro c hc
    simp [digit_ne hc (d := 'e') rfl, digit_ne hc (d := 'E') rfl]
  rw [chars, ← List.append_assoc]
  refine span_append (fun c hc => ?_) ?_
  · rcases List.mem_append.1 hc with hc | hc
    · exact hdigit c (h.whole c hc)
    · unfold point at hc
      split at hc
      · cases hc
      · rcases List.mem_cons.1 hc with rfl | hc
        · rfl
        · exact hdigit c (h.fraction c hc)
  · unfold mark
    split
    · exact fun c hc => by cases hc
    · intro c hc
      obtain rfl := Option.some.inj hc
      rfl

theorem IsWritten.span_point (h : n.IsWritten) :
    (n.whole ++ n.point).takeWhile (· != '.') = n.whole ∧
      ((n.whole ++ n.point).dropWhile (· != '.')).drop 1 = n.fraction := by
  have hwhole : ∀ c ∈ n.whole, (c != '.') = true :=
    fun c hc => bne_iff_ne.2 (digit_ne (h.whole c hc) rfl)
  have hpoint : ∀ c ∈ n.point.head?, (c != '.') = false := by
    intro c hc
    unfold point at hc
    split at hc
    · cases hc
    · obtain rfl := Option.some.inj hc
      rfl
  obtain ⟨htake, hdrop⟩ := span_append hwhole hpoint
  rw [htake, hdrop]
  refine ⟨rfl, ?_⟩
  unfold point
  split
  · rename_i hnone
    rw [hnone]
    rfl
  · rfl

/-- A signed numeral reads as the decimal of its parts. -/
theorem IsWritten.ofChars_chars (h : n.IsWritten) (sign : Option Bool) :
    Decimal.ofChars (signChars sign ++ n.chars) = n.decimal (sign == some true) := by
  obtain ⟨first, rest, hchars, hfirst⟩ := h.exists_cons
  have hunsigned : unsigned (signChars sign ++ n.chars) = n.chars := by
    match sign with
    | none => rw [signChars, List.nil_append, hchars, unsigned_of_isDigit hfirst]
    | some true => rfl
    | some false => rfl
  have hsign : ((signChars sign ++ n.chars).head? == some '-') = (sign == some true) := by
    match sign with
    | none =>
      rw [signChars, List.nil_append, hchars, List.head?_cons]
      simpa using digit_ne hfirst rfl
    | some true => rfl
    | some false => rfl
  have hshift : (if (n.mark.drop 1).head? == some '-' then
      -(digitsValue (unsigned (n.mark.drop 1)) : Int)
      else digitsValue (unsigned (n.mark.drop 1))) = n.shift := by
    unfold mark shift
    match n.power with
    | none => rfl
    | some (true, _) => rfl
    | some (false, _) => rfl
  obtain ⟨hmantissa, hmark⟩ := h.span_chars
  obtain ⟨htake, hdrop⟩ := h.span_point
  rw [ofChars_eq (by rw [hunsigned, hmantissa]) (by rw [hunsigned, hmark]), htake, hdrop, hsign,
    hshift]
  rfl

theorem IsWritten.mem_chars (h : n.IsWritten) {c : Char} (hc : c ∈ n.chars) :
    c.isDigit = true ∨ c = '.' ∨ c = 'e' ∨ c = '+' ∨ c = '-' := by
  rcases List.mem_append.1 hc with hc | hc
  · exact .inl (h.whole c hc)
  rcases List.mem_append.1 hc with hc | hc
  · unfold point at hc
    split at hc
    · cases hc
    · rcases List.mem_cons.1 hc with rfl | hc
      · exact .inr (.inl rfl)
      · exact .inl (h.fraction c hc)
  · unfold mark at hc
    split at hc
    · cases hc
    · rename_i negative digits hpower
      rcases List.mem_cons.1 hc with rfl | hc
      · exact .inr (.inr (.inl rfl))
      · rcases List.mem_cons.1 hc with rfl | hc
        · cases negative <;> simp
        · exact .inl ((h.power negative digits hpower).2 c hc)

theorem IsWritten.not_comma (h : n.IsWritten) : ∀ c ∈ n.chars, c ≠ ',' := by
  intro c hc
  rcases h.mem_chars hc with hdigit | rfl | rfl | rfl | rfl
  · exact digit_ne hdigit rfl
  all_goals decide

theorem IsWritten.isBlank_eq_false (h : n.IsWritten) : ∀ c ∈ n.chars, isBlank c = false := by
  intro c hc
  rcases h.mem_chars hc with hdigit | rfl | rfl | rfl | rfl
  · exact isBlank_of_isDigit hdigit
  all_goals decide

theorem IsWritten.readNumber_chars (h : n.IsWritten) (sign : Option Bool) :
    readNumber (signChars sign ++ n.chars) =
      Binary.withSign (sign == some true) (n.decimal false).nearestBits := by
  have hfilter : (signChars sign ++ n.chars).filter (· != ',') = signChars sign ++ n.chars := by
    refine List.filter_eq_self.2 fun c hc => bne_iff_ne.2 ?_
    rcases List.mem_append.1 hc with hc | hc
    · match sign, hc with
      | some true, hc => rw [List.mem_singleton.1 hc]; decide
      | some false, hc => rw [List.mem_singleton.1 hc]; decide
    · exact h.not_comma c hc
  rw [readNumber, hfilter, h.ofChars_chars]
  rfl

end Numeral

theorem pointAfterFirst_eq {cs : List Char} (h : cs ≠ []) :
    pointAfterFirst cs = cs.take 1 ++ (if cs.drop 1 = [] then [] else '.' :: cs.drop 1) := by
  match cs with
  | [] => exact absurd rfl h
  | [_] => rfl
  | _ :: _ :: _ => rfl

def pointedNumeral (digits : Nat) (negative : Bool) (exponent : List Char) : Numeral :=
  ⟨(Nat.toDigits 10 digits).take 1, (Nat.toDigits 10 digits).drop 1, some (negative, exponent)⟩

section
variable {exponent : List Char} (digits : Nat) (negative : Bool)

theorem isWritten_pointedNumeral (hne : exponent ≠ []) (h : ∀ c ∈ exponent, c.isDigit = true) :
    (pointedNumeral digits negative exponent).IsWritten := by
  refine ⟨by simp [pointedNumeral, Nat.toDigits_ne_nil],
    fun c hc => isDigit_of_mem_toDigits (List.mem_of_mem_take hc),
    fun c hc => isDigit_of_mem_toDigits (List.mem_of_mem_drop hc), fun _ _ hpower => ?_⟩
  obtain ⟨-, rfl⟩ := Prod.mk.inj (Option.some.inj hpower)
  exact ⟨hne, h⟩

theorem chars_pointedNumeral (exponent : List Char) :
    (pointedNumeral digits negative exponent).chars = pointAfterFirst (Nat.toDigits 10 digits) ++
      'e' :: (if negative then '-' else '+') :: exponent := by
  rw [pointAfterFirst_eq Nat.toDigits_ne_nil]
  simp [pointedNumeral, Numeral.chars, Numeral.point, Numeral.mark]

theorem size_pointedNumeral {e : Int} (h : digitsValue exponent = e.natAbs) :
    ((pointedNumeral digits (decide (e < 0)) exponent).decimal false).size =
      digits * (10 : ℚ) ^ (e - (digitCount digits - 1 : Nat)) := by
  have hshift : (pointedNumeral digits (decide (e < 0)) exponent).shift = e := by
    simp only [pointedNumeral, Numeral.shift, h, decide_eq_true_eq]
    split <;> omega
  rw [Numeral.decimal, hshift]
  simp only [pointedNumeral, Decimal.size, List.take_append_drop, digitsValue_toDigits,
    List.length_drop, digitCount]

end

namespace Decimal

def paddedDigits (d : Decimal) : List Char :=
  List.replicate ((-d.exponent).toNat + 1 - (Nat.toDigits 10 d.digits).length) '0' ++
    Nat.toDigits 10 d.digits

def exponentDigits (e : Int) : List Char :=
  List.replicate (2 - (Nat.toDigits 10 e.natAbs).length) '0' ++ Nat.toDigits 10 e.natAbs

def numeral (d : Decimal) : Numeral :=
  if -4 ≤ d.leading ∧ d.leading < 16 then
    if 0 ≤ d.exponent then
      ⟨Nat.toDigits 10 d.digits ++ List.replicate d.exponent.toNat '0', ['0'], none⟩
    else
      ⟨d.paddedDigits.take (d.paddedDigits.length - (-d.exponent).toNat),
        d.paddedDigits.drop (d.paddedDigits.length - (-d.exponent).toNat), none⟩
  else
    ⟨(Nat.toDigits 10 d.digits).take 1, (Nat.toDigits 10 d.digits).drop 1,
      some (decide (d.leading < 0), exponentDigits d.leading)⟩

variable (d : Decimal)

theorem length_paddedDigits : (-d.exponent).toNat < d.paddedDigits.length := by
  rw [paddedDigits, List.length_append, List.length_replicate]
  omega

theorem isDigit_of_mem_paddedDigits {c : Char} (h : c ∈ d.paddedDigits) : c.isDigit = true := by
  rcases List.mem_append.1 h with h | h
  · exact isDigit_of_mem_zeros h
  · exact isDigit_of_mem_toDigits h

theorem text_eq_numeral : d.text = signText d.negative ++ d.numeral.chars := by
  unfold text numeral
  split
  · unfold positional
    dsimp only
    split
    · simp [Numeral.chars, Numeral.point, Numeral.mark]
    · have hdrop : d.paddedDigits.drop (d.paddedDigits.length - (-d.exponent).toNat) ≠ [] := by
        have := d.length_paddedDigits
        rw [Ne, List.drop_eq_nil_iff]
        omega
      simp only [Numeral.chars, Numeral.point, Numeral.mark, hdrop, if_false, List.append_nil]
      rfl
  · unfold scientific
    dsimp only
    change _ = _ ++
      (pointedNumeral d.digits (decide (d.leading < 0)) (exponentDigits d.leading)).chars
    rw [chars_pointedNumeral, List.append_assoc]
    simp only [decide_eq_true_eq]
    rfl

theorem isWritten_numeral : d.numeral.IsWritten := by
  unfold numeral
  split
  · split
    · refine ⟨by simp [Nat.toDigits_ne_nil], fun c hc => ?_, by simp, fun _ _ h => by cases h⟩
      rcases List.mem_append.1 hc with hc | hc
      · exact isDigit_of_mem_toDigits hc
      · exact isDigit_of_mem_zeros hc
    · have hlength := d.length_paddedDigits
      refine ⟨?_, fun c hc => d.isDigit_of_mem_paddedDigits (List.mem_of_mem_take hc),
        fun c hc => d.isDigit_of_mem_paddedDigits (List.mem_of_mem_drop hc), fun _ _ h => by cases h⟩
      rw [Ne, List.take_eq_nil_iff]
      rintro (h | h)
      · omega
      · rw [h] at hlength
        cases hlength
  · refine isWritten_pointedNumeral _ _ (by simp [exponentDigits, Nat.toDigits_ne_nil])
      fun c hc => ?_
    rcases List.mem_append.1 hc with hc | hc
    · exact isDigit_of_mem_zeros hc
    · exact isDigit_of_mem_toDigits hc

theorem digitsValue_paddedDigits : digitsValue d.paddedDigits = d.digits := by
  rw [paddedDigits, digitsValue_append, digitsValue_zeros, digitsValue_toDigits, zero_mul, zero_add]

theorem digitsValue_exponentDigits (e : Int) : digitsValue (exponentDigits e) = e.natAbs := by
  rw [exponentDigits, digitsValue_append, digitsValue_zeros, digitsValue_toDigits, zero_mul,
    zero_add]

theorem size_numeral : (d.numeral.decimal false).size = d.size := by
  unfold numeral
  split
  · split
    · rename_i he
      obtain ⟨k, hk⟩ := Int.eq_ofNat_of_zero_le he
      have hvalue : digitsValue (Nat.toDigits 10 d.digits ++ List.replicate k '0' ++ ['0']) =
          d.digits * 10 ^ k * 10 := by
        rw [digitsValue_append, digitsValue_append, digitsValue_zeros, digitsValue_toDigits,
          List.length_replicate]
        rfl
      simp only [Numeral.decimal, Numeral.shift, size, hk, Int.toNat_natCast, hvalue]
      push_cast
      norm_num
      ring
    · rename_i he
      have hlength : (d.paddedDigits.drop (d.paddedDigits.length - (-d.exponent).toNat)).length =
          (-d.exponent).toNat := by
        have := d.length_paddedDigits
        rw [List.length_drop]
        omega
      simp only [Numeral.decimal, Numeral.shift, size, List.take_append_drop, hlength,
        digitsValue_paddedDigits]
      congr 2
      omega
  · have hlength : 0 < digitCount d.digits := Nat.length_toDigits_pos
    refine (size_pointedNumeral d.digits (digitsValue_exponentDigits d.leading)).trans ?_
    rw [size]
    congr 2
    unfold leading
    omega

end Decimal

def wholeNumeral (n : Nat) : Numeral := ⟨Nat.toDigits 10 n, [], none⟩

theorem isWritten_wholeNumeral (n : Nat) : (wholeNumeral n).IsWritten :=
  ⟨Nat.toDigits_ne_nil, fun _ hc => isDigit_of_mem_toDigits hc, by simp [wholeNumeral],
    fun _ _ h => by cases h⟩

theorem size_wholeNumeral (n : Nat) : ((wholeNumeral n).decimal false).size = n := by
  simp [wholeNumeral, Numeral.decimal, Numeral.shift, Decimal.size, digitsValue_toDigits]

theorem toList_toString_int (negative : Bool) (n : Nat) :
    (toString (if negative then -(n : Int) else n)).toList =
      Decimal.signText (negative && n != 0) ++ (wholeNumeral n).chars := by
  have hchars : (wholeNumeral n).chars = (toString n).toList := by
    rw [Nat.toString_eq_ofList_toDigits]
    simp [wholeNumeral, Numeral.chars, Numeral.point, Numeral.mark]
  rw [hchars]
  cases negative with
  | false => rfl
  | true =>
    cases n with
    | zero => rfl
    | succ n =>
      change ("-" ++ toString (n + 1)).toList = _
      rw [String.toList_append]
      rfl

namespace Binary

variable {b : Binary}

theorem value_of_isWhole (h : b.isWhole = true) :
    ((b.ratio.1 / b.ratio.2 : Nat) : ℚ) = b.significand * (2 : ℚ) ^ b.exponent := by
  have hden : (b.ratio.2 : ℚ) ≠ 0 := Nat.cast_ne_zero.2 b.ratio_snd_pos.ne'
  rw [Nat.cast_div (Nat.dvd_of_mod_eq_zero (by simpa [isWhole] using h)) hden, b.value_ratio]

theorem whole_eq_zero_iff (h : b.isWhole = true) :
    b.ratio.1 / b.ratio.2 = 0 ↔ b.significand = 0 := by
  have htwo : (2 : ℚ) ^ b.exponent ≠ 0 := (zpow_pos two_pos _).ne'
  rw [← Nat.cast_eq_zero (R := ℚ), value_of_isWhole h, mul_eq_zero, Nat.cast_eq_zero]
  simp [htwo]

end Binary

/-- The text of a double is a sign, for negative numbers only, and a numeral whose nearest double
has the magnitude of the number. -/
theorem literalText_eq_numeral {x : Float} {b : Binary} (h : Binary.ofFloat? x = some b) :
    ∃ n : Numeral, n.IsWritten ∧ (n.decimal false).nearestBits = b.bits ∧
      (literalText x).toList = Decimal.signText (b.negative && b.significand != 0) ++ n.chars := by
  have hdouble := (Binary.ofFloat?_eq_some h).1
  rw [literalText, h]
  dsimp only
  split
  · rename_i hsmall
    have hwhole : b.isWhole = true := (Bool.and_eq_true_iff.1 hsmall).1
    have hzero : (b.ratio.1 / b.ratio.2 != 0) = (b.significand != 0) := by
      rw [Bool.eq_iff_iff, bne_iff_ne, bne_iff_ne]
      exact not_congr (Binary.whole_eq_zero_iff hwhole)
    refine ⟨wholeNumeral (b.ratio.1 / b.ratio.2), isWritten_wholeNumeral _, ?_, ?_⟩
    · exact Decimal.nearestBits_of_size hdouble
        ((size_wholeNumeral _).trans (Binary.value_of_isWhole hwhole))
    · rw [← hzero]
      exact toList_toString_int _ _
  · rename_i hpart
    have hzero : (b.significand != 0) = true := by
      refine bne_iff_ne.2 fun hzero => hpart ?_
      have hratio : b.ratio.1 = 0 := by
        unfold Binary.ratio
        split <;> simp [hzero]
      simp [Binary.isWhole, Binary.whole, hratio]
    obtain ⟨hbits, hsign⟩ := Decimal.nearestBits_shortest hdouble
    refine ⟨(Decimal.shortest b).numeral, Decimal.isWritten_numeral _, ?_, ?_⟩
    · rw [Decimal.nearestBits_congr (Decimal.size_numeral _), hbits]
    · rw [numberText, h, hzero, Bool.and_true, ← hsign, ← Decimal.text_eq_numeral]
      exact String.toList_ofList

def plainZero (x : Float) : Float := if x = -0.0 then 0.0 else x

section
variable {x : Float} {b : Binary}

theorem plainZero_of_ne (h : Binary.ofFloat? x = some b) (hb : b.significand ≠ 0) :
    plainZero x = x := by
  refine if_neg ?_
  rintro rfl
  have hzero : Binary.ofFloat? (-0.0) = some ⟨true, 0, -1074⟩ := by decide +kernel
  rw [hzero] at h
  exact hb (Option.some.inj h ▸ rfl)

theorem plainZero_of_eq_zero (h : Binary.ofFloat? x = some b) (hb : b.significand = 0) :
    plainZero x = Binary.withSign false b.bits := by
  have hbits : b.bits = 0 := by
    rcases (Binary.ofFloat?_eq_some h).1.full with hfull | hfull
    · omega
    · rw [Binary.bits, hb, hfull]
      rfl
  have hx := Binary.withSign_of_ofFloat? h
  have hplus : Binary.withSign false 0 = 0.0 := by decide +kernel
  have hminus : Binary.withSign true 0 = -0.0 := by decide +kernel
  rw [hbits, hplus]
  rw [hbits] at hx
  cases hsign : b.negative with
  | true =>
    rw [hsign, hminus] at hx
    exact if_pos hx.symm
  | false =>
    rw [hsign, hplus] at hx
    rw [plainZero, ← hx]
    exact ite_self _

/-- A double is written with a minus sign and reads back, or it is written as a numeral. This one
reads back but for the sign of zero, and so it does with another sign in front. -/
theorem literalText_cases (h : Binary.ofFloat? x = some b) : ∃ n : Numeral, n.IsWritten ∧
    ((literalText x).toList = Numeral.signChars (some true) ++ n.chars ∧
        readNumber (literalText x).toList = x ∧ plainZero x = x ∨
      (literalText x).toList = n.chars ∧
        ∀ sign, readNumber (Numeral.signChars sign ++ n.chars) =
          if sign = some true then -plainZero x else plainZero x) := by
  obtain ⟨n, hn, hbits, htext⟩ := literalText_eq_numeral h
  have hx := Binary.withSign_of_ofFloat? h
  refine ⟨n, hn, ?_⟩
  by_cases hsign : (b.negative && b.significand != 0) = true
  · rw [hsign] at htext
    obtain ⟨hnegative, hnonzero⟩ := Bool.and_eq_true_iff.1 hsign
    refine .inl ⟨htext, ?_, plainZero_of_ne h (bne_iff_ne.1 hnonzero)⟩
    rw [hnegative] at hx
    rw [htext]
    exact (hn.readNumber_chars (some true)).trans (by rw [hbits]; exact hx)
  · rw [Bool.not_eq_true] at hsign
    rw [hsign] at htext
    have hplain : plainZero x = Binary.withSign false b.bits := by
      by_cases hb : b.significand = 0
      · exact plainZero_of_eq_zero h hb
      · have hnegative : b.negative = false := by simpa [hb] using hsign
        rw [plainZero_of_ne h hb, ← hnegative, hx]
    refine .inr ⟨htext, fun sign => ?_⟩
    rw [hn.readNumber_chars, hbits, hplain]
    match sign with
    | none => rfl
    | some false => rfl
    | some true => exact (Binary.neg_withSign (Binary.ofFloat?_eq_some h).1.bits_lt).symm

end

end UnitSheet
