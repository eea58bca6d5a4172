import Mathlib.Data.List.TakeWhile
import UnitSheet.Proofs.Text.Ascii
import UnitSheet.Unit.Label

set_option autoImplicit false

namespace UnitSheet

def UnitPower.ofPart? (part : List Char × Int) : Option UnitPower :=
  (UnitPower.ofChars? part.1).map fun u => ⟨u.name, u.power * part.2⟩

/-- The powers that a label writes, in their order; `none` if a factor cannot be read. -/
def labelPowers? (label : String) : Option (List UnitPower) :=
  (labelParts label).mapM UnitPower.ofPart?

def IsUnitWord (name : String) : Prop :=
  name ≠ "" ∧ ∀ c ∈ name.toList, isAsciiLetter c = true

def IsLabelChar (c : Char) : Prop := 48 ≤ c.toNat ∧ c.toNat ≤ 122

theorem isLabelChar_of_isAsciiLetter {c : Char} (h : isAsciiLetter c = true) : IsLabelChar c := by
  obtain ⟨hlow, hhigh⟩ := toNat_of_isAlpha h
  exact ⟨by omega, hhigh⟩

theorem isLabelChar_of_isDigit {c : Char} (h : c.isDigit = true) : IsLabelChar c := by
  obtain ⟨hlow, hhigh⟩ := Char.isDigit_iff_toNat.1 h
  change 48 ≤ c.toNat at hlow
  change c.toNat ≤ 57 at hhigh
  exact ⟨hlow, by omega⟩

namespace UnitExponents

theorem toList_powerText (name : String) {n : Nat} (hn : n ≠ 1) :
    (powerText name n).toList = name.toList ++ '^' :: Nat.toDigits 10 n := by
  have hpower : ¬ (n : Int) = 1 := by omega
  rw [powerText, if_neg hpower]
  change (name ++ "^" ++ toString n).toList = _
  rw [Nat.toString_eq_ofList_toDigits]
  simp only [String.toList_append, String.toList_ofList, List.append_assoc]
  rfl

theorem isLabelChar_of_mem_powerText {name : String} (h : IsUnitWord name) {n : Nat} :
    ∀ c ∈ (powerText name n).toList, IsLabelChar c := by
  intro c hc
  by_cases hn : n = 1
  · subst hn
    exact isLabelChar_of_isAsciiLetter (h.2 c hc)
  · rw [toList_powerText name hn] at hc
    rcases List.mem_append.1 hc with hc | hc
    · exact isLabelChar_of_isAsciiLetter (h.2 c hc)
    · rcases List.mem_cons.1 hc with rfl | hc
      · exact ⟨by decide, by decide⟩
      · exact isLabelChar_of_isDigit (isDigit_of_mem_toDigits hc)

theorem ofChars?_powerText {name : String} (h : IsUnitWord name) (n : Nat) :
    UnitPower.ofChars? (powerText name n).toList = some ⟨name, n⟩ := by
  obtain ⟨hne, hletters⟩ := h
  by_cases hn : n = 1
  · subst hn
    change UnitPower.ofChars? name.toList = _
    have htake : name.toList.takeWhile isAsciiLetter = name.toList :=
      List.takeWhile_eq_self_iff.2 hletters
    have hdrop : name.toList.dropWhile isAsciiLetter = [] := List.dropWhile_eq_nil_iff.2 hletters
    simp only [UnitPower.ofChars?, htake, hdrop, String.ofList_toList, if_neg hne]
    rfl
  · rw [toList_powerText name hn]
    have hcaret : isAsciiLetter '^' = false := by decide
    have htake : (name.toList ++ '^' :: Nat.toDigits 10 n).takeWhile isAsciiLetter = name.toList := by
      rw [List.takeWhile_append_of_pos hletters, List.takeWhile_cons, hcaret,
        if_neg Bool.false_ne_true, List.append_nil]
    have hdrop : (name.toList ++ '^' :: Nat.toDigits 10 n).dropWhile isAsciiLetter =
        '^' :: Nat.toDigits 10 n := by
      rw [List.dropWhile_append_of_pos hletters, List.dropWhile_cons, hcaret,
        if_neg Bool.false_ne_true]
    have hdigits : ∀ c ∈ Nat.toDigits 10 n, c.isDigit = true := fun c => isDigit_of_mem_toDigits
    have hnumeral : (!(Nat.toDigits 10 n).isEmpty && (Nat.toDigits 10 n).all isDecimalDigit) = true := by
      rw [Bool.and_eq_true]
      refine ⟨?_, List.all_eq_true.2 fun c hc => isDecimalDigit_of_isDigit (hdigits c hc)⟩
      simp [Nat.toDigits_ne_nil]
    have hminus : ∀ ds, Nat.toDigits 10 n ≠ '-' :: ds := by
      intro ds hds
      have hdash := hdigits '-' (by rw [hds]; exact List.mem_cons_self)
      exact absurd hdash (by decide)
    have hvalue := digitsValue_toDigits n
    unfold UnitPower.ofChars?
    dsimp only
    rw [htake, hdrop, String.ofList_toList, if_neg hne]
    generalize Nat.toDigits 10 n = ds at hnumeral hminus hvalue
    split
    · rename_i hnil
      cases hnil
    · rename_i hcons
      exact absurd (List.cons.inj hcons).2 (hminus _)
    · rename_i ds' _ hcons
      obtain rfl := (List.cons.inj hcons).2
      rw [if_pos hnumeral, hvalue]
    · rename_i hother
      exact absurd rfl (hother ds)

end UnitExponents

theorem splitAtBreaks_eq (isBreak : Char → Bool) (cs : List Char) :
    splitAtBreaks isBreak cs = cs.splitOnP isBreak := by
  induction cs with
  | nil => rfl
  | cons c cs ih =>
    rw [splitAtBreaks, List.splitOnP_cons_eq_if_modifyHead, ih]
    split
    · rfl
    · cases h : cs.splitOnP isBreak with
      | nil => exact absurd h (List.splitOnP_ne_nil _ _)
      | cons piece pieces => rfl

theorem splitOnP_intercalate {isBreak : Char → Bool} {sep : Char} (hsep : isBreak sep = true)
    {pieces : List (List Char)} (hne : pieces ≠ [])
    (h : ∀ piece ∈ pieces, ∀ c ∈ piece, isBreak c = false) :
    ([sep].intercalate pieces).splitOnP isBreak = pieces := by
  induction pieces with
  | nil => exact absurd rfl hne
  | cons piece pieces ih =>
    have hpiece := h piece List.mem_cons_self
    cases pieces with
    | nil => rw [List.intercalate_singleton, List.splitOnP_eq_singleton hpiece]
    | cons next rest =>
      have ih := ih (by simp) fun q hq => h q (List.mem_cons_of_mem piece hq)
      rw [List.intercalate_cons_cons, List.append_assoc, List.singleton_append,
        List.splitOnP_append_cons_of_forall_mem hpiece sep hsep, ih]

def IsFactorText (text : String) : Prop :=
  (∀ c ∈ text.toList, IsLabelChar c) ∧ text.toList ≠ [] ∧ text.toList ≠ ['1']

theorem productParts_intercalate {texts : List String} (h : ∀ t ∈ texts, IsFactorText t) :
    productParts ("·".intercalate texts).toList = texts.map String.toList := by
  rw [String.toList_intercalate]
  cases texts with
  | nil => decide
  | cons t ts =>
    have hpieces : ∀ piece ∈ (t :: ts).map String.toList,
        (∀ c ∈ piece, IsLabelChar c) ∧ piece ≠ [] ∧ piece ≠ ['1'] := by
      intro piece hpiece
      obtain ⟨u, hu, rfl⟩ := List.mem_map.1 hpiece
      exact h u hu
    have hne : (t :: ts).map String.toList ≠ [] := by simp
    generalize (t :: ts).map String.toList = pieces at hpieces hne
    have hbreak : ∀ piece ∈ pieces, ∀ c ∈ piece, (c == '·' || c == '*') = false := by
      intro piece hpiece c hc
      obtain ⟨hlow, hhigh⟩ := (hpieces piece hpiece).1 c hc
      rw [Bool.or_eq_false_iff, beq_eq_false_iff_ne, beq_eq_false_iff_ne]
      constructor
      · rintro rfl
        exact absurd hhigh (by decide)
      · rintro rfl
        exact absurd hlow (by decide)
    have hstrip : ∀ piece ∈ pieces, strip piece = piece := by
      intro piece hpiece
      refine strip_of_visible fun c hc => ?_
      obtain ⟨hlow, hhigh⟩ := (hpieces piece hpiece).1 c hc
      exact isBlank_eq_false (by omega) (by omega)
    have hsplit : (['·'].intercalate pieces).splitOnP (fun c => c == '·' || c == '*') = pieces :=
      splitOnP_intercalate (by decide) hne hbreak
    change ((splitAtBreaks _ (['·'].intercalate pieces)).map strip).filter _ = _
    rw [splitAtBreaks_eq, hsplit, List.map_congr_left hstrip, List.map_id', List.filter_eq_self]
    intro piece hpiece
    obtain ⟨-, hempty, hone⟩ := hpieces piece hpiece
    simp [hempty, hone]

theorem bne_of_not_mem {d : Char} {cs : List Char} (h : d ∉ cs) : ∀ c ∈ cs, (c != d) = true := by
  intro c hc
  rw [bne_iff_ne]
  rintro rfl
  exact h hc

theorem labelParts_bar {top bottom : String} (h : '/' ∉ top.toList) :
    labelParts (top ++ "/" ++ bottom) =
      (productParts top.toList).map (·, 1) ++ (productParts bottom.toList).map (·, -1) := by
  have hkeep := bne_of_not_mem h
  have hlabel : (top ++ "/" ++ bottom).toList = top.toList ++ '/' :: bottom.toList := by
    rw [String.toList_append, String.toList_append, List.append_assoc]
    rfl
  have hbar : ('/' != '/') = false := by decide
  rw [labelParts, labelNumerator, labelDenominator, hlabel, List.takeWhile_append_of_pos hkeep,
    List.dropWhile_append_of_pos hkeep, List.takeWhile_cons, List.dropWhile_cons, hbar,
    if_neg Bool.false_ne_true, if_neg Bool.false_ne_true, List.append_nil]
  rfl

theorem labelParts_plain {label : String} (h : '/' ∉ label.toList) :
    labelParts label = (productParts label.toList).map (·, 1) := by
  have hkeep := bne_of_not_mem h
  rw [labelParts, labelNumerator, labelDenominator, List.takeWhile_eq_self_iff.2 hkeep,
    List.dropWhile_eq_nil_iff.2 hkeep]
  exact List.append_nil _

theorem mem_of_mem_intercalate {sep c : Char} {pieces : List (List Char)}
    (h : c ∈ [sep].intercalate pieces) : c = sep ∨ ∃ piece ∈ pieces, c ∈ piece := by
  induction pieces with
  | nil => exact absurd h List.not_mem_nil
  | cons piece pieces ih =>
    cases pieces with
    | nil =>
      rw [List.intercalate_singleton] at h
      exact .inr ⟨piece, List.mem_cons_self, h⟩
    | cons next rest =>
      rw [List.intercalate_cons_cons, List.append_assoc] at h
      rcases List.mem_append.1 h with h | h
      · exact .inr ⟨piece, List.mem_cons_self, h⟩
      · rcases List.mem_cons.1 h with rfl | h
        · exact .inl rfl
        · exact (ih h).imp_right fun ⟨q, hq, hc⟩ => ⟨q, List.mem_cons_of_mem piece hq, hc⟩

def writtenSides (above below : List String) : String :=
  let product := "·".intercalate above
  let top := if product.isEmpty then "1" else product
  if below.isEmpty then top else top ++ "/" ++ "·".intercalate below

theorem labelParts_writtenSides {above below : List String} (habove : ∀ t ∈ above, IsFactorText t)
    (hbelow : ∀ t ∈ below, IsFactorText t) : labelParts (writtenSides above below) =
      (above.map String.toList).map (·, 1) ++ (below.map String.toList).map (·, -1) := by
  have htop : ∀ top, top = (if ("·".intercalate above).isEmpty then "1" else "·".intercalate above) →
      '/' ∉ top.toList ∧ productParts top.toList = above.map String.toList := by
    rintro top rfl
    have hparts := productParts_intercalate habove
    by_cases hempty : "·".intercalate above = ""
    · rw [hempty] at hparts
      rw [hempty, ← hparts]
      exact ⟨by decide, by decide⟩
    · rw [if_neg (by simpa [String.isEmpty_iff] using hempty)]
      refine ⟨fun hmem => ?_, hparts⟩
      rw [String.toList_intercalate] at hmem
      rcases mem_of_mem_intercalate hmem with hdot | ⟨piece, hpiece, hc⟩
      · exact absurd hdot (by decide)
      · obtain ⟨t, ht, rfl⟩ := List.mem_map.1 hpiece
        exact absurd ((habove t ht).1 _ hc).1 (by decide)
  obtain ⟨hbar, hparts⟩ := htop _ rfl
  -- Without factors above the bar the label starts with a one, which is read as nothing.
  unfold writtenSides
  dsimp only
  split
  · rename_i hnone
    rw [List.isEmpty_iff] at hnone
    rw [labelParts_plain hbar, hparts, hnone]
    exact (List.append_nil _).symm
  · rw [labelParts_bar hbar, hparts, productParts_intercalate hbelow]

namespace UnitExponents

theorem isFactorText_powerText {name : String} (h : IsUnitWord name) (n : Nat) :
    IsFactorText (powerText name n) := by
  have hread := ofChars?_powerText h n
  refine ⟨isLabelChar_of_mem_powerText h, ?_, ?_⟩
  · intro hempty
    rw [hempty] at hread
    exact absurd hread (by simp [UnitPower.ofChars?])
  · intro hone
    rw [hone] at hread
    have hnone : UnitPower.ofChars? ['1'] = none := by decide
    rw [hnone] at hread
    cases hread

def powersOf (entries : List (String × Int)) : List UnitPower := entries.map fun e => ⟨e.1, e.2⟩

def sideTexts (size : Int → Int) (entries : List (String × Int)) : List String :=
  entries.map fun e => powerText e.1 (size e.2)

section
variable {size : Int → Int} {sign : Int} {entries : List (String × Int)}

theorem isFactorText_of_mem_sideTexts (hword : ∀ e ∈ entries, IsUnitWord e.1)
    (hsize : ∀ e ∈ entries, 0 ≤ size e.2) : ∀ t ∈ sideTexts size entries, IsFactorText t := by
  intro t ht
  obtain ⟨e, he, rfl⟩ := List.mem_map.1 ht
  obtain ⟨n, hn⟩ := Int.eq_ofNat_of_zero_le (hsize e he)
  rw [hn]
  exact isFactorText_powerText (hword e he) n

-- The two sides of the bar differ only in what `size` takes off the exponents and `sign` puts back.
theorem mapM_sideTexts (hword : ∀ e ∈ entries, IsUnitWord e.1)
    (hsize : ∀ e ∈ entries, 0 ≤ size e.2 ∧ size e.2 * sign = e.2) :
    (((sideTexts size entries).map String.toList).map (·, sign)).mapM UnitPower.ofPart? =
      some (powersOf entries) := by
  induction entries with
  | nil => rfl
  | cons e entries ih =>
    have ih := ih (fun e' he' => hword e' (List.mem_cons_of_mem e he'))
      fun e' he' => hsize e' (List.mem_cons_of_mem e he')
    obtain ⟨hnonneg, hsign⟩ := hsize e List.mem_cons_self
    obtain ⟨n, hn⟩ := Int.eq_ofNat_of_zero_le hnonneg
    have hread : UnitPower.ofPart? ((powerText e.1 (size e.2)).toList, sign) = some ⟨e.1, e.2⟩ := by
      rw [UnitPower.ofPart?, hn, ofChars?_powerText (hword e List.mem_cons_self) n, ← hn]
      exact congrArg (fun k => some (UnitPower.mk e.1 k)) hsign
    unfold sideTexts at ih ⊢
    rw [List.map_cons, List.map_cons, List.map_cons, List.mapM_cons, hread, ih]
    rfl

end

section
variable {m : UnitExponents}

def ordered (m : UnitExponents) : List (String × Int) :=
  (m.entries.filter fun e => 0 < e.2) ++ m.entries.filter fun e => e.2 < 0

theorem toLabel?_eq_none_iff : m.toLabel? = none ↔ m.ordered = [] := by
  unfold toLabel? ordered
  dsimp only
  split
  · rename_i h
    simp only [List.isEmpty_iff, Bool.and_eq_true, List.map_eq_nil_iff] at h
    simp [h]
  · rename_i h
    simp only [List.isEmpty_iff, Bool.and_eq_true, List.map_eq_nil_iff] at h
    simpa using h

theorem labelPowers?_of_toLabel? {label : String} (hword : ∀ e ∈ m.entries, IsUnitWord e.1)
    (h : m.toLabel? = some label) : labelPowers? label = some (powersOf m.ordered) := by
  have habove : ∀ e ∈ m.entries.filter (fun e => 0 < e.2), IsUnitWord e.1 ∧ 0 < e.2 := by
    intro e he
    obtain ⟨he, hpos⟩ := List.mem_filter.1 he
    exact ⟨hword e he, by simpa using hpos⟩
  have hbelow : ∀ e ∈ m.entries.filter (fun e => e.2 < 0), IsUnitWord e.1 ∧ e.2 < 0 := by
    intro e he
    obtain ⟨he, hneg⟩ := List.mem_filter.1 he
    exact ⟨hword e he, by simpa using hneg⟩
  unfold toLabel? at h
  dsimp only at h
  split at h
  · cases h
  · change some (writtenSides (sideTexts id (m.entries.filter fun e => 0 < e.2))
      (sideTexts (-·) (m.entries.filter fun e => e.2 < 0))) = some label at h
    obtain rfl := Option.some.inj h
    unfold ordered powersOf labelPowers?
    generalize m.entries.filter (fun e => 0 < e.2) = above at habove
    generalize m.entries.filter (fun e => e.2 < 0) = below at hbelow
    have hreadAbove : (((sideTexts id above).map String.toList).map (·, 1)).mapM
        UnitPower.ofPart? = some (powersOf above) :=
      mapM_sideTexts (fun e he => (habove e he).1) fun e he =>
        ⟨Int.le_of_lt (habove e he).2, Int.mul_one _⟩
    have hreadBelow : (((sideTexts (-·) below).map String.toList).map (·, -1)).mapM
        UnitPower.ofPart? = some (powersOf below) :=
      mapM_sideTexts (fun e he => (hbelow e he).1) fun e he =>
        ⟨by have := (hbelow e he).2; omega, by omega⟩
    rw [labelParts_writtenSides, List.mapM_append, hreadAbove, hreadBelow, List.map_append]
    · rfl
    · exact isFactorText_of_mem_sideTexts (fun e he => (habove e he).1) fun e he =>
        Int.le_of_lt (habove e he).2
    · exact isFactorText_of_mem_sideTexts (fun e he => (hbelow e he).1) fun e he => by
        have := (hbelow e he).2
        omega

end

end UnitExponents

end UnitSheet
