import UnitSheet.Proofs.Text.Classes
import UnitSheet.Text.Upper

set_option autoImplicit false

namespace UnitSheet

theorem toNat_of_isUpper {c : Char} (h : c.isUpper = true) : 65 ≤ c.toNat ∧ c.toNat ≤ 90 := by
  unfold Char.isUpper at h
  simpa [UInt32.le_iff_toNat_le] using h

theorem toUpper_eq_self {c : Char} (h : c.toNat < 97) : c.toUpper = c := by
  refine dif_neg fun hlower => ?_
  have hle : 97 ≤ c.toNat := UInt32.le_iff_toNat_le.1 hlower.1
  omega

theorem isUpper_of_isDigit {c : Char} (h : c.isDigit = true) : c.isUpper = false := by
  have hdigit := Char.isDigit_iff_toNat.1 h
  change 48 ≤ c.toNat ∧ c.toNat ≤ 57 at hdigit
  rw [← Bool.not_eq_true]
  intro hupper
  have hletter := toNat_of_isUpper hupper
  omega

theorem upper_eq_self {s : String} (h : ∀ c ∈ s.toList, c.toNat < 97) : upper s = s := by
  have hchars : s.toList.flatMap upperChar = s.toList := by
    refine (List.flatMap_congr fun c hc => ?_).trans (List.flatMap_singleton' s.toList)
    have hascii : c.toNat < 128 := Nat.lt_trans (h c hc) (by decide)
    rw [upperChar, if_pos hascii, toUpper_eq_self (h c hc)]
  rw [upper, hchars, String.ofList_toList]

theorem upperChar_of_isDecimalDigit {c : Char} (h : isDecimalDigit c = true) :
    upperChar c = [c] := by
  have hforms : ∀ first ∈ digitZeros, ∀ form ∈ capitalForms,
      form.1 < first ∨ first + 10 ≤ form.1 := by decide +kernel
  have hruns : ∀ first ∈ digitZeros, ∀ run ∈ capitalRuns,
      run.2.1 < first ∨ first + 10 ≤ run.1 := by decide +kernel
  have hascii : ∀ first ∈ digitZeros, first = 48 ∨ 128 ≤ first := by decide +kernel
  have hdigits : ∀ k < 10, (Char.ofNat (48 + k)).toUpper = Char.ofNat (48 + k) := by decide
  obtain ⟨first, hfirst, hle, hlt⟩ := exists_digitZero h
  unfold upperChar
  dsimp only
  split
  · rename_i hsmall
    have hzero : first = 48 := (hascii first hfirst).resolve_right (by omega)
    have hupper := hdigits (c.toNat - 48) (by omega)
    rw [Nat.add_sub_cancel' (hzero ▸ hle), Char.ofNat_toNat] at hupper
    rw [hupper]
  · have hform : capitalForms.lookup c.toNat = none := by
      refine List.lookup_eq_none_iff.2 fun form hform => bne_iff_ne.2 ?_
      have hapart := hforms first hfirst form hform
      omega
    rw [hform]
    dsimp only
    split
    · rename_i low high step offset hfound
      have hapart : high < first ∨ first + 10 ≤ low :=
        hruns first hfirst _ (List.mem_of_find?_eq_some hfound)
      have hmatch := List.find?_some hfound
      simp only [Bool.and_eq_true, decide_eq_true_eq] at hmatch
      omega
    · rfl

/-- The sharp s, the dotless i, the long s and the Latin ligatures. -/
def foldedLetters : List Char := ['ß', 'ı', 'ſ', 'ﬀ', 'ﬁ', 'ﬂ', 'ﬃ', 'ﬄ', 'ﬅ', 'ﬆ']

def IsLatin (c : Char) : Prop := c.isAlpha = true ∨ c ∈ foldedLetters

theorem upperChar_of_isAlpha {c : Char} (h : c.isAlpha = true) : upperChar c = [c.toUpper] := by
  have hrange := toNat_of_isAlpha h
  exact if_pos (by omega)

theorem isUpper_toUpper {c : Char} (h : c.isAlpha = true) : c.toUpper.isUpper = true := by
  have hcapitals : ∀ k < 26, (Char.ofNat (97 + k)).toUpper.isUpper = true := by decide
  rcases Bool.or_eq_true_iff.1 h with hupper | hlower
  · rwa [toUpper_eq_self (Nat.lt_of_le_of_lt (toNat_of_isUpper hupper).2 (by decide))]
  · have hrange : 97 ≤ c.toNat ∧ c.toNat ≤ 122 := by
      unfold Char.isLower at hlower
      simpa [UInt32.le_iff_toNat_le] using hlower
    have hupper := hcapitals (c.toNat - 97) (by omega)
    rwa [Nat.add_sub_cancel' hrange.1, Char.ofNat_toNat] at hupper

section
variable {c : Char}

theorem IsLatin.upperChar_ne_nil (h : IsLatin c) : upperChar c ≠ [] := by
  have hfolded : (foldedLetters.all fun c => !(upperChar c).isEmpty) = true := by decide +kernel
  rcases h with h | h
  · rw [upperChar_of_isAlpha h]
    exact List.cons_ne_nil _ _
  · simpa using List.all_eq_true.1 hfolded c h

theorem IsLatin.isUpper_upperChar (h : IsLatin c) : ∀ d ∈ upperChar c, d.isUpper = true := by
  have hfolded : (foldedLetters.all fun c => (upperChar c).all Char.isUpper) = true := by
    decide +kernel
  rcases h with h | h
  · rw [upperChar_of_isAlpha h]
    exact fun d hd => List.mem_singleton.1 hd ▸ isUpper_toUpper h
  · exact List.all_eq_true.1 (List.all_eq_true.1 hfolded c h)

theorem range_of_ofNat {n : Nat}
    (h : (Char.ofNat n).isUpper = true ∨ (Char.ofNat n).isDigit = true) : 48 ≤ n ∧ n ≤ 90 := by
  have hrange : 48 ≤ (Char.ofNat n).toNat ∧ (Char.ofNat n).toNat ≤ 90 := by
    rcases h with h | h
    · have hletter := toNat_of_isUpper h
      omega
    · have hdigit := Char.isDigit_iff_toNat.1 h
      change 48 ≤ (Char.ofNat n).toNat ∧ (Char.ofNat n).toNat ≤ 57 at hdigit
      omega
  have hvalue : (Char.ofNat n).toNat = n ∨ (Char.ofNat n).toNat = 0 := by
    by_cases hvalid : n.isValidChar
    · exact .inl (congrArg Char.toNat (dif_pos hvalid))
    · exact .inr (congrArg Char.toNat (dif_neg hvalid))
  omega

/-- No other character has a capital form of letters and digits of ASCII. -/
theorem isDigit_or_isLatin (h : ∀ d ∈ upperChar c, d.isUpper = true ∨ d.isDigit = true) :
    c.isDigit = true ∨ IsLatin c := by
  have hforms : ∀ form ∈ capitalForms,
      ((form.2.map Char.ofNat).all fun d => d.isUpper || d.isDigit) = true →
        Char.ofNat form.1 ∈ foldedLetters := by decide +kernel
  have hruns : ∀ run ∈ capitalRuns, run.1 = run.2.1 ∧ Char.ofNat run.1 ∈ foldedLetters ∨
      90 < run.1 + run.2.2.2 ∨ run.2.1 + run.2.2.2 < 48 := by decide +kernel
  unfold upperChar at h
  dsimp only at h
  split at h
  · by_cases halpha : c.isAlpha = true
    · exact .inr (.inl halpha)
    · have hself : c.toUpper = c := by
        refine dif_neg fun hlower => halpha ?_
        unfold Char.isAlpha Char.isLower
        exact Bool.or_eq_true_iff.2 (.inr (by simpa using hlower))
      have hc := h c.toUpper (List.mem_singleton_self _)
      rw [hself] at hc
      exact .inl (hc.resolve_left fun hupper => halpha (Bool.or_eq_true_iff.2 (.inl hupper)))
  · refine .inr (.inr ?_)
    split at h
    · rename_i form hform
      obtain ⟨before, behind, hmem, -⟩ := List.lookup_eq_some_iff.1 hform
      have hfolded := hforms (c.toNat, form) (by rw [hmem]; simp)
        (List.all_eq_true.2 fun d hd => Bool.or_eq_true_iff.2 (h d hd))
      rwa [Char.ofNat_toNat] at hfolded
    · split at h
      · rename_i low high step offset hfound
        have hmatch := List.find?_some hfound
        simp only [Bool.and_eq_true, decide_eq_true_eq] at hmatch
        have hrange := range_of_ofNat (h _ (List.mem_singleton_self _))
        rcases hruns _ (List.mem_of_find?_eq_some hfound) with ⟨hsame, hfolded⟩ | hout
        · dsimp only at hsame hfolded
          have hc : low = c.toNat := by omega
          rwa [hc, Char.ofNat_toNat] at hfolded
        · dsimp only at hout
          omega
      · have hc := h c (List.mem_singleton_self _)
        rw [← Char.ofNat_toNat c] at hc
        have hrange := range_of_ofNat hc
        omega

theorem eq_nil_of_flatMap_upperChar {cs : List Char} (hcs : ∀ c ∈ cs, IsLatin c)
    (h : cs.flatMap upperChar = []) : cs = [] := by
  cases cs with
  | nil => rfl
  | cons c cs =>
    have hc := hcs c List.mem_cons_self
    exact absurd (List.append_eq_nil_iff.1 h).1 hc.upperChar_ne_nil

/-- A text whose capital form is capital letters and then digits is made of letters with such capitals
and of the same digits. -/
theorem exists_of_flatMap_upperChar {cs letters digits : List Char}
    (hletters : ∀ c ∈ letters, c.isUpper = true) (hdigits : ∀ c ∈ digits, c.isDigit = true)
    (h : cs.flatMap upperChar = letters ++ digits) :
    ∃ front, cs = front ++ digits ∧ (∀ c ∈ front, IsLatin c) ∧ front.flatMap upperChar = letters := by
  induction cs generalizing letters digits with
  | nil =>
    obtain ⟨rfl, rfl⟩ := List.append_eq_nil_iff.1 h.symm
    exact ⟨[], rfl, by simp, rfl⟩
  | cons c cs ih =>
    rw [List.flatMap_cons] at h
    have hc : ∀ d ∈ upperChar c, d.isUpper = true ∨ d.isDigit = true := by
      intro d hd
      have hmem : d ∈ letters ++ digits := h ▸ List.mem_append_left _ hd
      exact (List.mem_append.1 hmem).imp (hletters d) (hdigits d)
    rcases isDigit_or_isLatin hc with hdigit | hlatin
    · -- The letters end before the first digit.
      rw [upperChar_of_isDecimalDigit (isDecimalDigit_of_isDigit hdigit)] at h
      rcases List.cons_eq_append_iff.1 h with ⟨rfl, rfl⟩ | ⟨rest, rfl, -⟩
      · obtain ⟨front, hcs, hfront, hflat⟩ :=
          ih hletters (fun d hd => hdigits d (List.mem_cons_of_mem _ hd)) (List.nil_append _).symm
        obtain rfl := eq_nil_of_flatMap_upperChar hfront hflat
        exact ⟨[], congrArg (c :: ·) hcs, by simp, rfl⟩
      · have hupper := hletters c List.mem_cons_self
        rw [isUpper_of_isDigit hdigit] at hupper
        cases hupper
    · -- The capitals of a letter end before the digits.
      have hsplit : ∃ rest, letters = upperChar c ++ rest ∧ cs.flatMap upperChar = rest ++ digits := by
        rcases List.append_eq_append_iff.1 h with hrest | ⟨rest, hrest, hcs⟩
        · exact hrest
        · have hnil : rest = [] := by
            refine List.eq_nil_iff_forall_not_mem.2 fun d hd => ?_
            have hupper := hlatin.isUpper_upperChar d (hrest ▸ List.mem_append_right _ hd)
            rw [isUpper_of_isDigit (hdigits d (hcs ▸ List.mem_append_left _ hd))] at hupper
            cases hupper
          rw [hnil] at hrest hcs
          exact ⟨[], by simpa using hrest.symm, hcs.symm⟩
      obtain ⟨rest, rfl, hcs⟩ := hsplit
      obtain ⟨front, rfl, hfront, hflat⟩ :=
        ih (fun d hd => hletters d (List.mem_append_right _ hd)) hdigits hcs
      refine ⟨c :: front, rfl, ?_, ?_⟩
      · simpa [hlatin] using hfront
      · rw [List.flatMap_cons, hflat]

end

end UnitSheet
