import Mathlib.Data.List.Chain
import UnitSheet.Document.Recompute
import UnitSheet.Proofs.Text.Classes

set_option autoImplicit false

namespace UnitSheet

section
variable {cs : List Char}

/-- Glued repeats are folded behind digits only. -/
theorem foldGlued_eq_of_forall (h : ∀ x after, isNumberChar x = true → x :: after <:+ cs →
    repeatedUnit? ((after.dropWhile isBlank).takeWhile Char.isAlpha) = none) :
    foldGlued cs = cs := by
  have hnumber : ∀ c cs', isDecimalDigit c = true → c :: cs' <:+ cs → repeatedUnit?
      (((cs'.dropWhile isNumberChar).dropWhile isBlank).takeWhile Char.isAlpha) = none := by
    intro c cs' hc hsuffix
    obtain ⟨init, x, hlast, hx⟩ := exists_concat_number hc cs'
    refine h x _ hx (List.IsSuffix.trans ⟨init, ?_⟩ hsuffix)
    rw [List.append_cons, ← hlast, List.cons_append, List.takeWhile_append_dropWhile]
  fun_induction foldGlued cs with
  | case1 => rfl
  | case2 c cs hc number after word rest unit hunit =>
    cases hunit.symm.trans (hnumber c cs hc List.suffix_rfl)
  | case3 c cs hc number after word rest unit hunit =>
    cases hunit.symm.trans (hnumber c cs hc List.suffix_rfl)
  | case4 c cs hc number after word hnone ih =>
    have hsuffix : cs.dropWhile isNumberChar <:+ c :: cs :=
      (List.dropWhile_suffix _).trans (List.suffix_cons c cs)
    rw [ih (fun x after hx hafter => h x after hx (hafter.trans hsuffix))
      (fun d ds hd hds => hnumber d ds hd (hds.trans hsuffix)), List.cons_append,
      List.takeWhile_append_dropWhile]
  | case5 c cs _ ih =>
    have hsuffix := List.suffix_cons c cs
    rw [ih (fun x after hx hafter => h x after hx (hafter.trans hsuffix))
      (fun d ds hd hds => hnumber d ds hd (hds.trans hsuffix))]

/-- Spaced repeats are folded behind units only. -/
theorem foldSpaced_eq_of_forall (h : ∀ word rest, isUnitName (String.ofList word) = true →
    word ++ rest <:+ cs → dropRepeats word rest = rest) : foldSpaced cs = cs := by
  fun_induction foldSpaced cs with
  | case1 => rfl
  | case2 c cs _ word hunit ih =>
    have hcs : word ++ cs.dropWhile isWord = c :: cs := by
      rw [List.cons_append, List.takeWhile_append_dropWhile]
    have hdrop := h word _ hunit ⟨[], hcs⟩
    rw [hdrop] at ih ⊢
    have hsuffix : cs.dropWhile isWord <:+ c :: cs := ⟨word, hcs⟩
    rw [ih fun word' rest' hword hrest => h word' rest' hword (hrest.trans hsuffix), hcs]
  | case3 c cs _ word _ ih =>
    have hcs : word ++ cs.dropWhile isWord = c :: cs := by
      rw [List.cons_append, List.takeWhile_append_dropWhile]
    have hsuffix : cs.dropWhile isWord <:+ c :: cs := ⟨word, hcs⟩
    rw [ih fun word' rest' hword hrest => h word' rest' hword (hrest.trans hsuffix), hcs]
  | case4 c cs _ ih =>
    rw [ih fun word rest hword hrest => h word rest hword (hrest.trans (List.suffix_cons c cs))]

end

theorem repeatedUnit?_of_length_le_one {word : List Char} (h : word.length ≤ 1) :
    repeatedUnit? word = none := by
  unfold repeatedUnit?
  split
  · rfl
  · refine List.find?_eq_none.2 fun unit _ => ?_
    have hshort : ¬ 1 < word.length / unit.length :=
      Nat.not_lt_of_le (Nat.le_trans (Nat.div_le_self _ _) h)
    simp [isRepeat, hshort]

def HasLoneLetters (cs : List Char) : Prop :=
  cs.IsChain fun c d => (c.isAlpha && d.isAlpha) = false

instance (cs : List Char) : Decidable (HasLoneLetters cs) :=
  inferInstanceAs (Decidable (cs.IsChain fun c d => (c.isAlpha && d.isAlpha) = false))

theorem length_takeWhile_isAlpha {cs : List Char} (h : HasLoneLetters cs) :
    (cs.takeWhile Char.isAlpha).length ≤ 1 := by
  match cs with
  | [] => exact Nat.zero_le 1
  | [c] => exact (List.takeWhile_sublist _).length_le
  | c :: d :: rest =>
    have hcd := (List.isChain_cons_cons.1 h).1
    rw [List.takeWhile_cons]
    split
    · rename_i hc
      rw [hc, Bool.true_and] at hcd
      simp [hcd]
    · exact Nat.zero_le 1

theorem HasLoneLetters.tail {c : Char} {cs : List Char} (h : HasLoneLetters (c :: cs)) :
    HasLoneLetters cs :=
  List.IsChain.tail h

theorem HasLoneLetters.dropWhile {cs : List Char} (h : HasLoneLetters cs) (p : Char → Bool) :
    HasLoneLetters (cs.dropWhile p) :=
  List.IsChain.suffix h (List.dropWhile_suffix p)

theorem foldGlued_eq_self {cs : List Char} (h : HasLoneLetters cs) : foldGlued cs = cs := by
  refine foldGlued_eq_of_forall fun x after _ hafter => repeatedUnit?_of_length_le_one ?_
  have hbehind : HasLoneLetters (x :: after) := List.IsChain.suffix h hafter
  exact length_takeWhile_isAlpha (hbehind.tail.dropWhile isBlank)

theorem preparedText_eq_self {text : String} (hlone : HasLoneLetters text.toList)
    (hnormal : normalize (trimEquals text) = text)
    (hspaced : String.ofList (foldSpaced text.toList) = text) : preparedText text = text := by
  rw [preparedText, hnormal, foldRepeats, foldGlued_eq_self hlone, hspaced]

end UnitSheet
