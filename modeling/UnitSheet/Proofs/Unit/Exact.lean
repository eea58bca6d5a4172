import Mathlib.Algebra.Module.Pi
import Mathlib.Tactic.Module
import UnitSheet.Dims

set_option autoImplicit false

/-!
Dimension vectors as integers. A vector of words stands for five integers; sums, differences and
multiples of vectors stand for those of the integers as long as no result leaves the doubles that
are whole numbers without gaps. A vector that passes through words and doubles comes back unchanged
exactly if they hold every exponent.
-/

namespace UnitSheet

inductive Base
  | length
  | mass
  | time
  | force
  | angle
  deriving DecidableEq, Repr

def Dims.exact (d : Dims) : Base → Int
  | .length => d.length.toInt
  | .mass => d.mass.toInt
  | .time => d.time.toInt
  | .force => d.force.toInt
  | .angle => d.angle.toInt

def Dims.ofExact (f : Base → Int) : Dims :=
  ⟨.ofInt (f .length), .ofInt (f .mass), .ofInt (f .time), .ofInt (f .force), .ofInt (f .angle)⟩

def Fits (f : Base → Int) : Prop := ∀ b, (f b).natAbs ≤ 2 ^ 53

theorem fits_zero : Fits 0 := fun _ => Nat.zero_le _

theorem isWordSized_iff {n : Int} : isWordSized n = true ↔ -2 ^ 63 ≤ n ∧ n < 2 ^ 63 := by
  rw [isWordSized, Int64.toInt_minValue, Int64.toInt_maxValue, Bool.and_eq_true, decide_eq_true_eq,
    decide_eq_true_eq]
  omega

/-- A word that is a double: up to the sign at most 53 significant bits, and zeros behind them. -/
structure IsExactExponent (n : Int) : Prop where
  word : -2 ^ 63 ≤ n ∧ n < 2 ^ 63
  double : ∃ k e : Nat, k ≤ 2 ^ 53 ∧ n.natAbs = k * 2 ^ e

theorem isExactExponent_of_natAbs_le {n : Int} (h : n.natAbs ≤ 2 ^ 53) : IsExactExponent n :=
  ⟨⟨by omega, by omega⟩, n.natAbs, 0, h, by rw [pow_zero, mul_one]⟩

theorem roundHalfEven_mul_eq_self_iff {num den : Nat} (hden : 0 < den) :
    roundHalfEven num den * den = num ↔ den ∣ num := by
  constructor
  · exact fun h => ⟨_, h.symm.trans (Nat.mul_comm _ _)⟩
  · intro hdvd
    have hrest : 2 * (num % den) < den := by
      rw [Nat.mod_eq_zero_of_dvd hdvd]
      exact hden
    rw [roundHalfEven, if_pos hrest, Nat.div_mul_cancel hdvd]

/-- Beyond `2 ^ 53` the doubles next to a number are the multiples of a power of two. -/
theorem spacing_dvd_iff {n : Nat} (hn : 2 ^ 53 < n) :
    2 ^ (n.log2 - 52) ∣ n ↔ ∃ k e : Nat, k ≤ 2 ^ 53 ∧ n = k * 2 ^ e := by
  have hlog : 53 ≤ n.log2 := (Nat.le_log2 (by omega)).2 hn.le
  constructor
  · rintro ⟨k, hk⟩
    have hhigh : 2 ^ (n.log2 - 52) * k < 2 ^ (n.log2 - 52) * 2 ^ 53 := by
      rw [← hk, ← pow_add, show n.log2 - 52 + 53 = n.log2 + 1 by omega]
      exact Nat.lt_log2_self
    exact ⟨k, n.log2 - 52, (Nat.lt_of_mul_lt_mul_left hhigh).le, hk.trans (Nat.mul_comm _ _)⟩
  · rintro ⟨k, e, hk, hn'⟩
    rcases Nat.lt_or_ge e (n.log2 - 52) with hless | hge
    · -- With so few zeros behind the bits there is one such number, the power of two itself.
      have hhigh : n ≤ 2 ^ n.log2 := calc
        n = k * 2 ^ e := hn'
        _ ≤ 2 ^ 53 * 2 ^ (n.log2 - 53) :=
          Nat.mul_le_mul hk (Nat.pow_le_pow_right two_pos (by omega))
        _ = 2 ^ n.log2 := by rw [← pow_add, Nat.add_sub_cancel' hlog]
      have hpower : n = 2 ^ n.log2 := hhigh.antisymm (Nat.log2_self_le (by omega))
      exact (pow_dvd_pow 2 (Nat.sub_le _ 52)).trans (dvd_of_eq hpower.symm)
    · exact (pow_dvd_pow 2 hge).trans (hn' ▸ dvd_mul_left _ _)

theorem roundToDouble_eq_self_iff {n : Int} :
    roundToDouble n = n ↔ ∃ k e : Nat, k ≤ 2 ^ 53 ∧ n.natAbs = k * 2 ^ e := by
  by_cases hsmall : n.natAbs ≤ 2 ^ 53
  · exact iff_of_true (if_pos hsmall) (isExactExponent_of_natAbs_le hsmall).double
  · rw [← spacing_dvd_iff (not_le.1 hsmall),
      ← roundHalfEven_mul_eq_self_iff (Nat.pow_pos two_pos), roundToDouble]
    have hlarge : ¬ n.natAbs ≤ Nat.pow 2 53 := hsmall
    rw [if_neg hlarge]
    change (if n < 0 then -((roundHalfEven n.natAbs (2 ^ (n.natAbs.log2 - 52)) *
      2 ^ (n.natAbs.log2 - 52) : Nat) : Int) else _) = n ↔ _
    generalize roundHalfEven n.natAbs (2 ^ (n.natAbs.log2 - 52)) * 2 ^ (n.natAbs.log2 - 52) = size
    split <;> omega

theorem toInt_settled_iff {n : Int} :
    (wordOfInt (roundToDouble (Int64.ofInt n).toInt)).toInt = n ↔ IsExactExponent n := by
  constructor
  · intro h
    have hword : -2 ^ 63 ≤ n ∧ n < 2 ^ 63 := h ▸ ⟨Int64.le_toInt _, Int64.toInt_lt _⟩
    rw [Int64.toInt_ofInt_of_le hword.1 hword.2] at h
    refine ⟨hword, roundToDouble_eq_self_iff.1 ?_⟩
    by_cases hrounded : isWordSized (roundToDouble n) = true
    · obtain ⟨hlow, hhigh⟩ := isWordSized_iff.1 hrounded
      rwa [wordOfInt, if_pos hrounded, Int64.toInt_ofInt_of_le hlow hhigh] at h
    · -- The least word stands for what no word can hold, but it is a double.
      rw [wordOfInt, if_neg hrounded, Int64.toInt_minValue] at h
      rw [← h] at hrounded
      exact absurd (by decide) hrounded
  · rintro ⟨⟨hlow, hhigh⟩, hdouble⟩
    rw [Int64.toInt_ofInt_of_le hlow hhigh, roundToDouble_eq_self_iff.2 hdouble, wordOfInt,
      if_pos (isWordSized_iff.2 ⟨hlow, hhigh⟩), Int64.toInt_ofInt_of_le hlow hhigh]

namespace Dims

theorem ofExact_exact (d : Dims) : ofExact d.exact = d := by
  simp only [ofExact, exact, Int64.ofInt_toInt]

theorem exact_inj {d e : Dims} (h : d.exact = e.exact) : d = e := by
  rw [← ofExact_exact d, h, ofExact_exact]

theorem exact_ofExact {f : Base → Int} (h : Fits f) : (ofExact f).exact = f := by
  funext b
  have hb := h b
  cases b <;> exact Int64.toInt_ofInt_of_le (by omega) (by omega)

theorem exact_zero : zero.exact = 0 := by
  funext b
  cases b <;> rfl

theorem add_eq_ofExact (d e : Dims) : d + e = ofExact (d.exact + e.exact) := by
  change map₂ (· + ·) d e = _
  simp only [map₂, ofExact, Pi.add_apply, exact, Int64.ofInt_add, Int64.ofInt_toInt]

theorem sub_eq_ofExact (d e : Dims) : d - e = ofExact (d.exact - e.exact) := by
  change map₂ (· - ·) d e = _
  simp only [map₂, ofExact, Pi.sub_apply, exact, Int64.ofInt_sub, Int64.ofInt_toInt]

theorem scale?_eq_some {d e : Dims} {n : Int} (h : d.scale? n = some e) :
    e = ofExact (n • d.exact) := by
  unfold scale? at h
  split at h
  · obtain rfl := Option.some.inj h
    simp only [map, ofExact, Pi.smul_apply, exact, smul_eq_mul, Int64.ofInt_mul,
      Int64.ofInt_toInt, Int64.mul_comm]
  · cases h

theorem ofExact_add (f g : Base → Int) : ofExact (f + g) = ofExact f + ofExact g := by
  change _ = map₂ (· + ·) (ofExact f) (ofExact g)
  simp only [map₂, ofExact, Pi.add_apply, Int64.ofInt_add]

/-- A vector comes back unchanged from words and doubles exactly if they hold every exponent. -/
theorem exact_settle_iff {f : Base → Int} :
    (ofExact f).settle.exact = f ↔ ∀ b, IsExactExponent (f b) := by
  rw [funext_iff]
  refine forall_congr' fun b => ?_
  cases b <;> exact toInt_settled_iff

theorem exact_settle {f : Base → Int} (h : Fits f) : (ofExact f).settle.exact = f :=
  exact_settle_iff.2 fun b => isExactExponent_of_natAbs_le (h b)

theorem settle_ofExact {f : Base → Int} (h : Fits f) : (ofExact f).settle = ofExact f :=
  exact_inj ((exact_settle h).trans (exact_ofExact h).symm)

theorem isZero_iff {d : Dims} : d.isZero = true ↔ d.exact = 0 := by
  unfold isZero
  rw [beq_iff_eq]
  constructor
  · rintro rfl
    exact exact_zero
  · intro h
    exact exact_inj (h.trans exact_zero.symm)

end Dims

end UnitSheet
