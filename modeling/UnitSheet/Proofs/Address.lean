import UnitSheet.Proofs.Number.Numeral
import UnitSheet.Proofs.Text.Upper
import UnitSheet.Sheet

set_option autoImplicit false

namespace UnitSheet

theorem columnNumber_concat (cs : List Char) (c : Char) :
    columnNumber (cs ++ [c]) = 26 * columnNumber cs + (c.toNat - 64) := by
  rw [columnNumber, List.foldl_append]
  rfl

theorem columnLetters_succ (n : Nat) :
    columnLetters (n + 1) = columnLetters (n / 26) ++ [Char.ofNat (65 + n % 26)] := by
  rw [columnLetters, dif_neg (Nat.succ_ne_zero n), Nat.add_sub_cancel]

theorem toNat_capital : ∀ k < 26, (Char.ofNat (65 + k)).toNat = 65 + k := by decide

theorem isUpper_capital : ∀ k < 26, (Char.ofNat (65 + k)).isUpper = true := by decide

theorem columnNumber_columnLetters (n : Nat) : columnNumber (columnLetters n) = n := by
  induction n using Nat.strongRecOn with
  | ind n ih =>
    cases n with
    | zero => rw [columnLetters, dif_pos rfl, columnNumber, List.foldl_nil]
    | succ n =>
      have hcapital := toNat_capital (n % 26) (Nat.mod_lt n (by decide))
      rw [columnLetters_succ, columnNumber_concat, ih (n / 26) (by omega), hcapital]
      omega

theorem isUpper_of_mem_columnLetters {n : Nat} : ∀ c ∈ columnLetters n, c.isUpper = true := by
  induction n using Nat.strongRecOn with
  | ind n ih =>
    cases n with
    | zero =>
      rw [columnLetters, dif_pos rfl]
      simp
    | succ n =>
      rw [columnLetters_succ]
      intro c hc
      rcases List.mem_append.1 hc with hc | hc
      · exact ih (n / 26) (by omega) c hc
      · rw [List.mem_singleton.1 hc]
        exact isUpper_capital (n % 26) (Nat.mod_lt n (by decide))

def labelCount : Nat → Nat
  | 0 => 0
  | k + 1 => 26 * (labelCount k + 1)

theorem labelCount_three : labelCount 3 = columnCount := rfl

theorem length_columnLetters_le {k n : Nat} (h : n ≤ labelCount k) : (columnLetters n).length ≤ k := by
  induction k generalizing n with
  | zero =>
    obtain rfl := Nat.le_zero.1 h
    rw [columnLetters, dif_pos rfl]
    exact Nat.le_refl 0
  | succ k ih =>
    cases n with
    | zero =>
      rw [columnLetters, dif_pos rfl]
      exact Nat.zero_le _
    | succ n =>
      rw [labelCount] at h
      rw [columnLetters_succ, List.length_append, List.length_singleton]
      exact Nat.succ_le_succ (ih (by omega))

theorem columnLetters_ne_nil (n : Nat) : columnLetters (n + 1) ≠ [] := by
  rw [columnLetters_succ]
  simp

theorem columnIndex_eq_ok_iff {letters : List Char} (h : ∀ c ∈ letters, c.isUpper = true) {n : Nat} :
    columnIndex (String.ofList letters) = .ok n ↔
      letters ≠ [] ∧ letters.length ≤ 3 ∧ columnNumber letters - 1 = n := by
  have hletters : letters.all Char.isAlpha = true :=
    List.all_eq_true.2 fun c hc => by rw [Char.isAlpha, h c hc, Bool.true_or]
  have hcapitals : letters.map Char.toUpper = letters :=
    (List.map_congr_left fun c hc => toUpper_eq_self
      (Nat.lt_of_le_of_lt (toNat_of_isUpper (h c hc)).2 (by decide))).trans (List.map_id _)
  unfold columnIndex
  rw [String.toList_ofList]
  dsimp only
  rw [hletters, hcapitals, Bool.not_true, Bool.or_false]
  split
  · rename_i hnil
    simp [List.isEmpty_iff.1 hnil]
  · rename_i hne
    rw [List.isEmpty_iff] at hne
    split
    · rename_i hlong
      simp [Nat.not_le.2 hlong]
    · rename_i hshort
      simp [hne, Nat.not_lt.1 hshort]

theorem columnIndex_columnLetters {n : Nat} (h : n < columnCount) :
    columnIndex (String.ofList (columnLetters (n + 1))) = .ok n := by
  refine (columnIndex_eq_ok_iff isUpper_of_mem_columnLetters).2 ⟨columnLetters_ne_nil n, ?_, ?_⟩
  · exact length_columnLetters_le (labelCount_three ▸ h)
  · rw [columnNumber_columnLetters, Nat.add_sub_cancel]

theorem head?_toDigits_ne_zero {n : Nat} (h : 0 < n) : (Nat.toDigits 10 n).head? ≠ some '0' := by
  induction n using Nat.strongRecOn with
  | ind n ih =>
    by_cases hless : n < 10
    · rw [Nat.toDigits_of_lt_base hless]
      intro hzero
      have hvalue := congrArg Char.toNat (Option.some.inj hzero)
      rw [Nat.toNat_digitChar_of_lt_ten hless] at hvalue
      have hcode : '0'.toNat = 48 := rfl
      omega
    · rw [Nat.toDigits_of_base_le (by decide) (Nat.not_lt.1 hless),
        List.head?_append_of_ne_nil _ Nat.toDigits_ne_nil]
      exact ih (n / 10) (by omega) (by omega)

theorem toList_label {a : Address} {id : String} (hrow : 0 ≤ a.row) (h : a.label = .ok id) :
    0 ≤ a.col ∧ a.col.toNat < columnCount ∧
      id.toList = columnLetters (a.col.toNat + 1) ++ Nat.toDigits 10 (a.row.toNat + 1) := by
  rw [Address.label, columnLabel] at h
  split at h
  · cases h
  · split at h
    · cases h
    · rename_i hneg hbeyond
      refine ⟨by omega, by omega, ?_⟩
      have hrow' : a.row + 1 = ((a.row.toNat + 1 : Nat) : Int) := by omega
      obtain rfl := Except.ok.inj h
      rw [String.toList_append, String.toList_ofList, hrow']
      have hstring : toString ((a.row.toNat + 1 : Nat) : Int) = toString (a.row.toNat + 1) := rfl
      rw [hstring, Nat.toString_eq_ofList_toDigits, String.toList_ofList]

theorem toNat_of_mem_label {a : Address} {id : String} (hrow : 0 ≤ a.row) (h : a.label = .ok id) :
    ∀ c ∈ id.toList, 48 ≤ c.toNat ∧ c.toNat < 97 := by
  obtain ⟨-, -, hid⟩ := toList_label hrow h
  intro c hc
  rw [hid, List.mem_append] at hc
  rcases hc with hc | hc
  · have hletter := toNat_of_isUpper (isUpper_of_mem_columnLetters c hc)
    omega
  · have hdigit := Char.isDigit_iff_toNat.1 (isDigit_of_mem_toDigits hc)
    change 48 ≤ c.toNat ∧ c.toNat ≤ 57 at hdigit
    omega

theorem upper_label {a : Address} {id : String} (hrow : 0 ≤ a.row) (h : a.label = .ok id) :
    upper id = id :=
  upper_eq_self fun c hc => (toNat_of_mem_label hrow h c hc).2

theorem ofText?_of_label {a : Address} {id : String} (hrow : 0 ≤ a.row) (h : a.label = .ok id) :
    Address.ofText? id = some a := by
  obtain ⟨hcol, hlast, hid⟩ := toList_label hrow h
  have hstrip : strip id.toList = id.toList := by
    refine strip_of_visible fun c hc => ?_
    have hrange := toNat_of_mem_label hrow h c hc
    exact isBlank_eq_false (by omega) (by omega)
  have hdigits : ∀ c ∈ Nat.toDigits 10 (a.row.toNat + 1), c.isDigit = true :=
    fun c hc => isDigit_of_mem_toDigits hc
  have hnumber : ∀ c ∈ (Nat.toDigits 10 (a.row.toNat + 1)).head?, c.isUpper = false :=
    fun c hc => isUpper_of_isDigit (hdigits c (List.mem_of_mem_head? hc))
  obtain ⟨hletters, hrest⟩ := span_append isUpper_of_mem_columnLetters hnumber
  have hfirst : ((Nat.toDigits 10 (a.row.toNat + 1)).head?.map (· != '0')).getD false = true := by
    obtain ⟨d, ds, hds⟩ := List.exists_cons_of_ne_nil (Nat.toDigits_ne_nil (b := 10) (n := a.row.toNat + 1))
    have hne := head?_toDigits_ne_zero (Nat.succ_pos a.row.toNat)
    rw [hds] at hne ⊢
    simpa using hne
  have hvalue : (Nat.toDigits 10 (a.row.toNat + 1)).foldl (fun n c => 10 * n + (c.toNat - 48)) 0 =
      a.row.toNat + 1 := Nat.ofDigitChars_ten_toDigits
  unfold Address.ofText?
  rw [hstrip, String.ofList_toList, upper_label hrow h, hid]
  dsimp only
  rw [hletters, hrest, hfirst, List.all_eq_true.2 hdigits, columnIndex_columnLetters hlast, hvalue]
  -- Both numbers are counted from one in the label, and from zero in the address.
  have hsame : (⟨((a.row.toNat + 1 : Nat) : Int) - 1, (a.col.toNat : Int)⟩ : Address) = a := by
    rw [Int.toNat_of_nonneg hcol, Nat.cast_add, Int.toNat_of_nonneg hrow]
    simp
  rw [Bool.and_self, if_pos rfl]
  exact congrArg some hsame

theorem standard_of_label {a : Address} {id : String} (hrow : 0 ≤ a.row) (h : a.label = .ok id) :
    AddressReader.standard (upper id) = .ok (some a) := by
  rw [AddressReader.standard, upper_label hrow h, ofText?_of_label hrow h]

end UnitSheet
