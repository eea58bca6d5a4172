import Mathlib.Data.List.Basic
import Mathlib.Data.List.TakeWhile
import UnitSheet.Line.Normal
import UnitSheet.Proofs.Text.Ascii

set_option autoImplicit false

namespace UnitSheet

section
variable {c d : Char}

theorem exists_blankRange (h : isBlank c = true) :
    ∃ r ∈ blankRanges, r.1 ≤ c.toNat ∧ c.toNat ≤ r.2 := by
  obtain ⟨r, hr, hc⟩ := List.any_eq_true.1 h
  exact ⟨r, hr, by simpa using hc⟩

theorem exists_digitZero (h : isDecimalDigit c = true) :
    ∃ first ∈ digitZeros, first ≤ c.toNat ∧ c.toNat < first + 10 := by
  obtain ⟨value, hvalue⟩ := Option.isSome_iff_exists.1 h
  obtain ⟨first, hfirst, hc⟩ := List.exists_of_findSome?_eq_some hvalue
  refine ⟨first, hfirst, ?_⟩
  split at hc
  · assumption
  · cases hc

theorem isDecimalDigit_of_isBlank (h : isBlank c = true) : isDecimalDigit c = false := by
  have hapart : ∀ r ∈ blankRanges, ∀ first ∈ digitZeros, r.2 < first ∨ first + 10 ≤ r.1 := by
    decide
  obtain ⟨r, hr, hlow, hhigh⟩ := exists_blankRange h
  rw [← Bool.not_eq_true]
  intro hdigit
  obtain ⟨first, hfirst, hle, hlt⟩ := exists_digitZero hdigit
  have hapart := hapart r hr first hfirst
  omega

theorem isBlank_of_isDecimalDigit (h : isDecimalDigit c = true) : isBlank c = false := by
  rw [← Bool.not_eq_true]
  intro hblank
  rw [isDecimalDigit_of_isBlank hblank] at h
  cases h

theorem isAlpha_of_isBlank (h : isBlank c = true) : c.isAlpha = false := by
  rw [← Bool.not_eq_true]
  intro halpha
  rw [isBlank_of_isAlpha halpha] at h
  cases h

theorem ne_of_isBlank (h : isBlank c = true) (hd : isBlank d = false) : c ≠ d := by
  rintro rfl
  rw [h] at hd
  cases hd

theorem ne_of_isDecimalDigit (h : isDecimalDigit c = true) (hd : isDecimalDigit d = false) :
    c ≠ d := by
  rintro rfl
  rw [h] at hd
  cases hd

theorem ne_of_isAlpha (h : c.isAlpha = true) (hd : d.isAlpha = false) : c ≠ d := by
  rintro rfl
  rw [h] at hd
  cases hd

theorem isNumberChar_of_isBlank (h : isBlank c = true) : isNumberChar c = false := by
  simp [isNumberChar, isDecimalDigit_of_isBlank h, ne_of_isBlank h (d := '.') (by decide),
    ne_of_isBlank h (d := ',') (by decide)]

theorem isNumberChar_of_isAlpha (h : c.isAlpha = true) : isNumberChar c = false := by
  simp [isNumberChar, isDecimalDigit_of_isAlpha h, ne_of_isAlpha h (d := '.') rfl,
    ne_of_isAlpha h (d := ',') rfl]

theorem exists_concat_number (hc : isDecimalDigit c = true) (cs : List Char) :
    ∃ init x, c :: cs.takeWhile isNumberChar = init ++ [x] ∧ isNumberChar x = true := by
  obtain ⟨init, x, hlast⟩ :=
    List.eq_nil_or_concat' (c :: cs.takeWhile isNumberChar) |>.resolve_left (List.cons_ne_nil c _)
  have hx : x ∈ c :: cs.takeWhile isNumberChar := hlast ▸ by simp
  refine ⟨init, x, hlast, ?_⟩
  rcases List.mem_cons.1 hx with rfl | hx
  · rw [isNumberChar, hc, Bool.true_or, Bool.true_or]
  · exact List.mem_takeWhile_imp hx

end

end UnitSheet
