import Mathlib.Data.List.Induction
import UnitSheet.Proofs.Address
import UnitSheet.Proofs.Text.Blanks

set_option autoImplicit false

namespace UnitSheet

theorem columnLetters_columnNumber {letters : List Char} (h : ∀ c ∈ letters, c.isUpper = true) :
    columnLetters (columnNumber letters) = letters := by
  induction letters using List.reverseRecOn with
  | nil => rw [columnNumber, List.foldl_nil, columnLetters, dif_pos rfl]
  | append_singleton letters c ih =>
    have hc := toNat_of_isUpper (h c (by simp))
    have hnumber : columnNumber (letters ++ [c]) = 26 * columnNumber letters + (c.toNat - 65) + 1 := by
      rw [columnNumber_concat]
      omega
    have hfront : (26 * columnNumber letters + (c.toNat - 65)) / 26 = columnNumber letters := by omega
    have hlast : 65 + (26 * columnNumber letters + (c.toNat - 65)) % 26 = c.toNat := by omega
    rw [hnumber, columnLetters_succ, hfront, hlast, Char.ofNat_toNat,
      ih fun d hd => h d (List.mem_append_left _ hd)]

theorem columnNumber_le {letters : List Char} (h : ∀ c ∈ letters, c.isUpper = true) :
    columnNumber letters ≤ labelCount letters.length := by
  induction letters using List.reverseRecOn with
  | nil => exact Nat.le_refl 0
  | append_singleton letters c ih =>
    have hc := toNat_of_isUpper (h c (by simp))
    have hfront := ih fun d hd => h d (List.mem_append_left _ hd)
    rw [columnNumber_concat, List.length_append, List.length_singleton, labelCount]
    omega

theorem labelCount_mono : Monotone labelCount := by
  refine monotone_nat_of_le_succ fun k => ?_
  rw [labelCount]
  omega

theorem columnNumber_pos {letters : List Char} (h : ∀ c ∈ letters, c.isUpper = true)
    (hne : letters ≠ []) : 0 < columnNumber letters := by
  refine Nat.pos_of_ne_zero fun hzero => hne ?_
  rw [← columnLetters_columnNumber h, hzero, columnLetters, dif_pos rfl]

structure IsRowNumber (digits : List Char) : Prop where
  isDigit : ∀ c ∈ digits, c.isDigit = true
  ne_nil : digits ≠ []
  head_ne : digits.head? ≠ some '0'

theorem digitChar_of_isDigit {c : Char} (h : c.isDigit = true) :
    Nat.digitChar (c.toNat - '0'.toNat) = c := by
  have hdigit := Char.isDigit_iff_toNat.1 h
  change 48 ≤ c.toNat ∧ c.toNat ≤ 57 at hdigit
  change Nat.digitChar (c.toNat - 48) = c
  rw [← Char.toNat_inj, Nat.toNat_digitChar_of_lt_ten (by omega)]
  omega

theorem IsRowNumber.toDigits_ofDigitChars {digits : List Char} (h : IsRowNumber digits) :
    Nat.toDigits 10 (Nat.ofDigitChars 10 digits 0) = digits := by
  induction digits using List.reverseRecOn with
  | nil => exact absurd rfl h.ne_nil
  | append_singleton digits c ih =>
    have hc := h.isDigit c (by simp)
    have hrange := Char.isDigit_iff_toNat.1 hc
    have hlast : c.toNat - '0'.toNat < 10 := by
      change 48 ≤ c.toNat ∧ c.toNat ≤ 57 at hrange
      change c.toNat - 48 < 10
      omega
    rw [Nat.ofDigitChars_append, Nat.ofDigitChars_cons, Nat.ofDigitChars_nil]
    by_cases hne : digits = []
    · rw [hne, Nat.ofDigitChars_nil, Nat.mul_zero, Nat.zero_add, Nat.toDigits_of_lt_base hlast,
        digitChar_of_isDigit hc, List.nil_append]
    · have hfront : IsRowNumber digits :=
        ⟨fun d hd => h.isDigit d (List.mem_append_left _ hd), hne,
          List.head?_append_of_ne_nil digits hne ▸ h.head_ne⟩
      have hpos : 0 < Nat.ofDigitChars 10 digits 0 := by
        refine Nat.pos_of_ne_zero fun hzero => hfront.head_ne ?_
        rw [← ih hfront, hzero]
        rfl
      rw [← Nat.toDigits_append_toDigits (by decide) hpos hlast, ih hfront,
        Nat.toDigits_of_lt_base hlast, digitChar_of_isDigit hc]

structure IsLabel (letters digits : List Char) : Prop where
  isUpper : ∀ c ∈ letters, c.isUpper = true
  ne_nil : letters ≠ []
  length_le : letters.length ≤ 3
  isRowNumber : IsRowNumber digits

def Address.ofParts (letters digits : List Char) : Address :=
  ⟨(Nat.ofDigitChars 10 digits 0 : Int) - 1, (columnNumber letters - 1 : Nat)⟩

section
variable {letters digits : List Char} {text : String} {a : Address}

theorem exists_label (hcol : 0 ≤ a.col) (hlast : a.col < columnCount) : ∃ id, a.label = .ok id := by
  rw [Address.label, columnLabel, if_neg (Int.not_lt.2 hcol), if_neg (Int.not_le.2 hlast)]
  exact ⟨_, rfl⟩

theorem IsRowNumber.pos (h : IsRowNumber digits) : 0 < Nat.ofDigitChars 10 digits 0 := by
  refine Nat.pos_of_ne_zero fun hzero => h.head_ne ?_
  rw [← h.toDigits_ofDigitChars, hzero]
  rfl

theorem row_ofParts (letters digits : List Char) :
    (Address.ofParts letters digits).row = (Nat.ofDigitChars 10 digits 0 : Int) - 1 := rfl

theorem col_ofParts (letters digits : List Char) :
    (Address.ofParts letters digits).col = (columnNumber letters - 1 : Nat) := rfl

theorem IsLabel.label_ofParts (h : IsLabel letters digits) :
    (Address.ofParts letters digits).label = .ok (String.ofList (letters ++ digits)) := by
  have hcolumn := columnNumber_pos h.isUpper h.ne_nil
  have hlast : columnNumber letters ≤ columnCount :=
    labelCount_three ▸ (columnNumber_le h.isUpper).trans (labelCount_mono h.length_le)
  have hnumber := h.isRowNumber.pos
  have hrow := row_ofParts letters digits
  have hcol := col_ofParts letters digits
  obtain ⟨id, hid⟩ := exists_label (a := Address.ofParts letters digits) (by omega) (by omega)
  have hletters : (Address.ofParts letters digits).col.toNat + 1 = columnNumber letters := by omega
  have hdigits : (Address.ofParts letters digits).row.toNat + 1 = Nat.ofDigitChars 10 digits 0 := by
    omega
  have hlist := (toList_label (by omega) hid).2.2
  rw [hletters, hdigits, columnLetters_columnNumber h.isUpper,
    h.isRowNumber.toDigits_ofDigitChars] at hlist
  rw [hid, ← hlist, String.ofList_toList]

theorem toList_upper (s : String) : (upper s).toList = s.toList.flatMap upperChar := by
  rw [upper, String.toList_ofList]

/-- A text is read as the address whose label it is, up to blanks and capitals. -/
theorem ofText?_eq_some_iff : Address.ofText? text = some a ↔
    ∃ letters digits, (strip text.toList).flatMap upperChar = letters ++ digits ∧
      IsLabel letters digits ∧ a = Address.ofParts letters digits := by
  unfold Address.ofText?
  rw [toList_upper, String.toList_ofList]
  generalize (strip text.toList).flatMap upperChar = cs
  dsimp only
  constructor
  · intro h
    split at h
    · rename_i hnumber
      rw [Bool.and_eq_true] at hnumber
      have hupper : ∀ c ∈ cs.takeWhile Char.isUpper, c.isUpper = true :=
        fun c hc => List.mem_takeWhile_imp hc
      split at h
      · rename_i col hcol
        obtain ⟨hne, hlength, rfl⟩ := (columnIndex_eq_ok_iff hupper).1 hcol
        have hrow : IsRowNumber (cs.dropWhile Char.isUpper) := by
          refine ⟨List.all_eq_true.1 hnumber.1, fun hnil => ?_, fun hzero => ?_⟩
          · rw [hnil] at hnumber
            cases hnumber.2
          · rw [hzero] at hnumber
            cases hnumber.2
        exact ⟨_, _, List.takeWhile_append_dropWhile.symm, ⟨hupper, hne, hlength, hrow⟩,
          (Option.some.inj h).symm⟩
      · cases h
    · cases h
  · rintro ⟨letters, digits, rfl, h, rfl⟩
    obtain ⟨d, rest, hdigits⟩ := List.exists_cons_of_ne_nil h.isRowNumber.ne_nil
    have hhead : ∀ c ∈ digits.head?, c.isUpper = false :=
      fun c hc => isUpper_of_isDigit (h.isRowNumber.isDigit c (List.mem_of_mem_head? hc))
    have hfirst : (digits.head?.map (· != '0')).getD false = true := by
      have hne := h.isRowNumber.head_ne
      rw [hdigits] at hne ⊢
      simpa using hne
    obtain ⟨hletters, hrest⟩ := span_append h.isUpper hhead
    rw [hletters, hrest, hfirst, List.all_eq_true.2 h.isRowNumber.isDigit, Bool.and_self, if_pos rfl,
      (columnIndex_eq_ok_iff h.isUpper).2 ⟨h.ne_nil, h.length_le, rfl⟩]
    rfl

theorem isSome_ofText?_iff_parts : (Address.ofText? text).isSome = true ↔
    ∃ letters digits, (strip text.toList).flatMap upperChar = letters ++ digits ∧
      IsLabel letters digits := by
  rw [Option.isSome_iff_exists]
  constructor
  · rintro ⟨a, ha⟩
    obtain ⟨letters, digits, hparts, hlabel, -⟩ := ofText?_eq_some_iff.1 ha
    exact ⟨letters, digits, hparts, hlabel⟩
  · rintro ⟨letters, digits, hparts, hlabel⟩
    exact ⟨_, ofText?_eq_some_iff.2 ⟨letters, digits, hparts, hlabel, rfl⟩⟩

end

/-- In the range of rows and columns that have labels, every label reads back as its address; and
every text that is read as an address is the label of this address, without the blanks around it and
in capitals. -/
theorem ofText?_inverse_label :
    (∀ a : Address, 0 ≤ a.row → 0 ≤ a.col → a.col < columnCount →
      ∃ id, a.label = .ok id ∧ Address.ofText? id = some a) ∧
    ∀ text a, Address.ofText? text = some a →
      a.label = .ok (upper (String.ofList (strip text.toList))) := by
  constructor
  · intro a hrow hcol hlast
    obtain ⟨id, hid⟩ := exists_label hcol hlast
    exact ⟨id, hid, ofText?_of_label hrow hid⟩
  · intro text a ha
    obtain ⟨letters, digits, hparts, hlabel, rfl⟩ := ofText?_eq_some_iff.1 ha
    rw [hlabel.label_ofParts, upper, String.toList_ofList, hparts]

theorem ofText?_inverse_label_secondRound : ∃ a id, Address.ofText? " aa10 " = some a ∧
    a.label = .ok id ∧ id = "AA10" ∧ Address.ofText? id = some a := by
  have hread : Address.ofText? " aa10 " = some ⟨9, 26⟩ := by decide +kernel
  have hcapitals : upper (String.ofList (strip " aa10 ".toList)) = "AA10" := by decide +kernel
  have hlabel := ofText?_inverse_label.2 _ _ hread
  obtain ⟨id, hid, hback⟩ := ofText?_inverse_label.1 ⟨9, 26⟩ (by decide) (by decide) (by decide)
  obtain rfl := Except.ok.inj (hid.symm.trans hlabel)
  exact ⟨⟨9, 26⟩, _, hread, hlabel, hcapitals, hback⟩

/-- Whether a text is one to three letters of ASCII and a row number, with blanks around them. -/
def IsAddressText (text : String) : Prop :=
  ∃ letters digits, strip text.toList = letters ++ digits ∧ (∀ c ∈ letters, c.isAlpha = true) ∧
    letters ≠ [] ∧ letters.length ≤ 3 ∧ IsRowNumber digits

theorem flatMap_upperChar_of_isDigit {cs : List Char} (h : ∀ c ∈ cs, c.isDigit = true) :
    cs.flatMap upperChar = cs := by
  refine (List.flatMap_congr fun c hc => ?_).trans (List.flatMap_singleton' cs)
  exact upperChar_of_isDecimalDigit (isDecimalDigit_of_isDigit (h c hc))

theorem length_flatMap_upperChar {cs : List Char} (h : ∀ c ∈ cs, c.isAlpha = true) :
    (cs.flatMap upperChar).length = cs.length := by
  have hmap : cs.flatMap upperChar = cs.map Char.toUpper :=
    (List.flatMap_congr fun c hc => upperChar_of_isAlpha (h c hc)).trans
      List.map_eq_flatMap.symm
  rw [hmap, List.length_map]

/-- A text is read as an address if and only if it is letters and a row number, with blanks around
them, and the capitals of the letters are one to three. The letters are those of ASCII and ten others
with such capitals; in a text without these, they are one to three letters of ASCII. -/
theorem isSome_ofText?_iff (text : String) :
    ((Address.ofText? text).isSome = true ↔ ∃ letters digits, strip text.toList = letters ++ digits ∧
      (∀ c ∈ letters, IsLatin c) ∧ letters ≠ [] ∧ (letters.flatMap upperChar).length ≤ 3 ∧
      IsRowNumber digits) ∧
    ((∀ c ∈ text.toList, c ∉ foldedLetters) →
      ((Address.ofText? text).isSome = true ↔ IsAddressText text)) := by
  have hread : (Address.ofText? text).isSome = true ↔
      ∃ letters digits, strip text.toList = letters ++ digits ∧ (∀ c ∈ letters, IsLatin c) ∧
        letters ≠ [] ∧ (letters.flatMap upperChar).length ≤ 3 ∧ IsRowNumber digits := by
    rw [isSome_ofText?_iff_parts]
    constructor
    · rintro ⟨capitals, digits, hparts, hlabel⟩
      obtain ⟨letters, hstrip, hlatin, rfl⟩ :=
        exists_of_flatMap_upperChar hlabel.isUpper hlabel.isRowNumber.isDigit hparts
      refine ⟨letters, digits, hstrip, hlatin, fun hnil => hlabel.ne_nil ?_, hlabel.length_le,
        hlabel.isRowNumber⟩
      rw [hnil, List.flatMap_nil]
    · rintro ⟨letters, digits, hstrip, hlatin, hne, hlength, hrow⟩
      refine ⟨letters.flatMap upperChar, digits, ?_, fun d hd => ?_, ?_, hlength, hrow⟩
      · rw [hstrip, List.flatMap_append, flatMap_upperChar_of_isDigit hrow.isDigit]
      · obtain ⟨c, hc, hd⟩ := List.mem_flatMap.1 hd
        exact (hlatin c hc).isUpper_upperChar d hd
      · exact fun hnil => hne (eq_nil_of_flatMap_upperChar hlatin hnil)
  refine ⟨hread, fun hplain => hread.trans ?_⟩
  constructor
  · rintro ⟨letters, digits, hstrip, hlatin, hne, hlength, hrow⟩
    have halpha : ∀ c ∈ letters, c.isAlpha = true := fun c hc =>
      (hlatin c hc).resolve_right
        (hplain c (mem_of_mem_strip (hstrip ▸ List.mem_append_left digits hc)))
    rw [length_flatMap_upperChar halpha] at hlength
    exact ⟨letters, digits, hstrip, halpha, hne, hlength, hrow⟩
  · rintro ⟨letters, digits, hstrip, halpha, hne, hlength, hrow⟩
    refine ⟨letters, digits, hstrip, fun c hc => .inl (halpha c hc), hne, ?_, hrow⟩
    rwa [length_flatMap_upperChar halpha]

theorem isSome_ofText?_iff_plainText :
    (∀ c ∈ " zz10 ".toList, c ∉ foldedLetters) ∧ IsAddressText " zz10 " := by
  have hchars : " zz10 ".toList = [' ', 'z', 'z', '1', '0', ' '] := rfl
  have hplain : ∀ c ∈ " zz10 ".toList, c ∉ foldedLetters := by
    rw [hchars]
    simp [foldedLetters]
  have hread : (Address.ofText? " zz10 ").isSome = true := by decide +kernel
  exact ⟨hplain, ((isSome_ofText?_iff " zz10 ").2 hplain).1 hread⟩

/-- The sharp s counts as two letters, and it is none of ASCII. -/
theorem ofText?_sharpS : Address.ofText? "ß1" = some ⟨0, 512⟩ ∧ ¬ IsAddressText "ß1" := by
  refine ⟨by decide +kernel, ?_⟩
  rintro ⟨letters, digits, hstrip, halpha, hne, -, -⟩
  have hchars : strip "ß1".toList = ['ß', '1'] := by decide +kernel
  obtain ⟨c, letters, rfl⟩ := List.exists_cons_of_ne_nil hne
  rw [hchars, List.cons_append] at hstrip
  obtain rfl := (List.cons.inj hstrip).1
  exact absurd (halpha 'ß' List.mem_cons_self) (by decide)

end UnitSheet
