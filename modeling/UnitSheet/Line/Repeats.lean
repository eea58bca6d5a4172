import UnitSheet.Line.Normal

set_option autoImplicit false

namespace UnitSheet

def copies (count : Nat) (cs : List Char) : List Char := (List.replicate count cs).flatten

def isRepeat (word unit : List Char) : Bool :=
  word.length % unit.length == 0 && 1 < word.length / unit.length &&
    word == copies (word.length / unit.length) unit

def unitsLongestFirst : List String :=
  unitNames.mergeSort fun a b => decide (b.length ≤ a.length)

def repeatedUnit? (word : List Char) : Option (List Char) :=
  if isUnitName (String.ofList word) then none
  else (unitsLongestFirst.map String.toList).find? (isRepeat word)

def foldGlued : List Char → List Char
  | [] => []
  | c :: cs =>
    if isDecimalDigit c then
      let number := c :: cs.takeWhile isNumberChar
      let after := (cs.dropWhile isNumberChar).dropWhile isBlank
      let word := after.takeWhile Char.isAlpha
      let rest := after.dropWhile Char.isAlpha
      match repeatedUnit? word with
      | some unit =>
        if (rest.head?.map isWord).getD false then number ++ foldGlued (cs.dropWhile isNumberChar)
        else number ++ ' ' :: unit ++ foldGlued rest
      | none => number ++ foldGlued (cs.dropWhile isNumberChar)
    else c :: foldGlued cs
termination_by cs => cs.length
decreasing_by
  all_goals
    have h1 := length_dropWhile_le isNumberChar cs
    have h2 := length_dropWhile_le isBlank (cs.dropWhile isNumberChar)
    have h3 := length_dropWhile_le Char.isAlpha ((cs.dropWhile isNumberChar).dropWhile isBlank)
    simp only [List.length_cons]
    omega

def dropRepeats (unit : List Char) : List Char → List Char
  | [] => []
  | c :: cs =>
    if isBlank c ∧ (cs.dropWhile isBlank).takeWhile isWord = unit then
      dropRepeats unit ((cs.dropWhile isBlank).dropWhile isWord)
    else c :: cs
termination_by cs => cs.length
decreasing_by
  have h1 := length_dropWhile_le isBlank cs
  have h2 := length_dropWhile_le isWord (cs.dropWhile isBlank)
  simp only [List.length_cons]
  omega

theorem length_dropRepeats_le (unit cs : List Char) :
    (dropRepeats unit cs).length ≤ cs.length := by
  fun_induction dropRepeats unit cs with
  | case1 => exact Nat.le_refl _
  | case2 c cs h ih =>
    have h1 := length_dropWhile_le isBlank cs
    have h2 := length_dropWhile_le isWord (cs.dropWhile isBlank)
    simp only [List.length_cons]
    omega
  | case3 => exact Nat.le_refl _

def foldSpaced : List Char → List Char
  | [] => []
  | c :: cs =>
    if isWord c then
      let word := c :: cs.takeWhile isWord
      if isUnitName (String.ofList word) then
        word ++ foldSpaced (dropRepeats word (cs.dropWhile isWord))
      else word ++ foldSpaced (cs.dropWhile isWord)
    else c :: foldSpaced cs
termination_by cs => cs.length
decreasing_by
  · have h1 := length_dropWhile_le isWord cs
    have h2 := length_dropRepeats_le (c :: cs.takeWhile isWord) (cs.dropWhile isWord)
    simp only [List.length_cons]
    omega
  · have h1 := length_dropWhile_le isWord cs
    simp only [List.length_cons]
    omega
  · exact Nat.lt_succ_self _

def foldRepeats (text : String) : String := String.ofList (foldSpaced (foldGlued text.toList))

end UnitSheet
