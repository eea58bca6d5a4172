import Mathlib.Data.List.Basic
import Mathlib.Data.List.TakeWhile
import UnitSheet.Line.Repeats
import UnitSheet.Proofs.Line.Normal

set_option autoImplicit false

namespace UnitSheet

section
variable {p : Char → Bool} {x y t : List Char} {s : Char}

theorem takeWhile_stop (hs : p s = false) (x y : List Char) :
    (x ++ s :: y).takeWhile p = x.takeWhile p := by
  induction x with
  | nil => rw [List.nil_append, List.takeWhile_cons, hs]; rfl
  | cons c x ih => rw [List.cons_append, List.takeWhile_cons, List.takeWhile_cons, ih]

theorem dropWhile_stop (hs : p s = false) (x y : List Char) :
    (x ++ s :: y).dropWhile p = x.dropWhile p ++ s :: y := by
  induction x with
  | nil => rw [List.nil_append, List.dropWhile_cons, hs]; rfl
  | cons c x ih =>
    rw [List.cons_append, List.dropWhile_cons, List.dropWhile_cons, ih]
    split <;> rfl

/-- A second part of a text that the first one does not run into. -/
inductive IsTail : List Char → Prop
  | blank : IsTail [' ']
  | equal (y : List Char) : IsTail ('=' :: y)

theorem IsTail.takeWhile (ht : IsTail t) (hblank : p ' ' = false) (hequal : p '=' = false)
    (x : List Char) : (x ++ t).takeWhile p = x.takeWhile p := by
  cases ht with
  | blank => exact takeWhile_stop hblank x []
  | equal y => exact takeWhile_stop hequal x y

theorem IsTail.dropWhile (ht : IsTail t) (hblank : p ' ' = false) (hequal : p '=' = false)
    (x : List Char) : (x ++ t).dropWhile p = x.dropWhile p ++ t := by
  cases ht with
  | blank => exact dropWhile_stop hblank x []
  | equal y => exact dropWhile_stop hequal x y

theorem IsTail.dropWhile_isBlank (ht : IsTail t) (x : List Char) :
    (x ++ t).dropWhile isBlank = x.dropWhile isBlank ++ t ∨
      (t = [' '] ∧ x.dropWhile isBlank = [] ∧ (x ++ t).dropWhile isBlank = []) := by
  cases ht with
  | equal y => exact .inl (dropWhile_stop (by decide) x y)
  | blank =>
    rw [List.dropWhile_append]
    split
    · rename_i hempty
      exact .inr ⟨rfl, List.isEmpty_iff.1 hempty, by decide⟩
    · exact .inl rfl

theorem IsTail.not_mem_head (ht : IsTail t) {word : List Char} (hblank : ' ' ∉ word)
    (hequal : '=' ∉ word) : ∀ c ∈ t.head?, c ∉ word := by
  intro c hc
  cases ht with
  | blank => exact Option.some.inj hc ▸ hblank
  | equal y => exact Option.some.inj hc ▸ hequal

theorem prefix_of_prefix_append {word : List Char} (ht : ∀ c ∈ t.head?, c ∉ word)
    (h : word <+: x ++ t) : word <+: x := by
  obtain ⟨rest, h⟩ := h
  rcases List.append_eq_append_iff.1 h with ⟨more, rfl, -⟩ | ⟨more, rfl, htail⟩
  · exact List.prefix_append word more
  · cases more with
    | nil => simp
    | cons c more =>
      refine absurd ?_ (ht c (by rw [htail]; rfl))
      simp

theorem singleSpaces_append_cons (hs : isBlank s = false) (x y : List Char) :
    singleSpaces (x ++ s :: y) = singleSpaces x ++ s :: singleSpaces y := by
  induction x with
  | nil => simp [singleSpaces, hs]
  | cons c x ih =>
    rw [List.cons_append, singleSpaces, singleSpaces, ih]
    cases x with
    | nil => cases hc : isBlank c <;> simp [hs]
    | cons d x => cases hc : isBlank c <;> cases hd : isBlank d <;> simp [hd]

theorem singleSpaces_append_blank (x : List Char) :
    singleSpaces (x ++ [' ']) = singleSpaces x ∨
      singleSpaces (x ++ [' ']) = singleSpaces x ++ [' '] := by
  have hspace : isBlank ' ' = true := by decide
  induction x with
  | nil => exact .inr (by decide)
  | cons c x ih =>
    rw [List.cons_append, singleSpaces, singleSpaces]
    cases x with
    | nil =>
      cases hc : isBlank c with
      | true => exact .inl (by simp [hspace, singleSpaces])
      | false => exact .inr (by simp [hspace, singleSpaces])
    | cons d x =>
      rcases ih with heq | heq
      · rw [heq]
        exact .inl rfl
      · rw [heq]
        refine .inr ?_
        cases hc : isBlank c <;> cases hd : isBlank d <;> simp [hd]

theorem singleSpaces_blanks (h : ∀ b ∈ x, isBlank b = true) :
    singleSpaces x = [] ∨ singleSpaces x = [' '] := by
  induction x with
  | nil => exact .inl rfl
  | cons b x ih =>
    rw [singleSpaces, if_pos (h b List.mem_cons_self)]
    cases x with
    | nil => exact .inr rfl
    | cons d x =>
      have hd : isBlank d = true := h d (by simp)
      rw [List.head?_cons, Option.map_some, hd, Option.getD_some, if_pos rfl]
      exact ih fun b hb => h b (List.mem_cons_of_mem _ hb)

theorem isBlank_of_mem_singleSpaces (h : ∀ b ∈ x, isBlank b = true) :
    ∀ b ∈ singleSpaces x, isBlank b = true := by
  rcases singleSpaces_blanks h with hnone | hone
  · rw [hnone]
    exact fun b hb => absurd hb List.not_mem_nil
  · rw [hone]
    exact isBlank_of_mem_space

theorem spaceUnits_append (ht : IsTail t) (x : List Char) :
    spaceUnits (x ++ t) = spaceUnits x ++ spaceUnits t := by
  have hnumber : ∀ cs, (cs ++ t).takeWhile isNumberChar = cs.takeWhile isNumberChar :=
    ht.takeWhile (by decide) (by decide)
  have hbehind : ∀ cs, (cs ++ t).dropWhile isNumberChar = cs.dropWhile isNumberChar ++ t :=
    ht.dropWhile (by decide) (by decide)
  have hword : ∀ cs, (cs ++ t).takeWhile isWord = cs.takeWhile isWord :=
    ht.takeWhile (by decide) (by decide)
  have hrest : ∀ cs, (cs ++ t).dropWhile isWord = cs.dropWhile isWord ++ t :=
    ht.dropWhile (by decide) (by decide)
  have hempty : isUnitName (String.ofList []) = false := by decide
  fun_induction spaceUnits x with
  | case1 => rfl
  | case2 c cs hc number after word hunit ih =>
    rw [List.cons_append, spaceUnits, if_pos hc]
    dsimp only
    rw [hnumber, hbehind]
    rcases ht.dropWhile_isBlank (cs.dropWhile isNumberChar) with hafter | ⟨-, hnone, -⟩
    · rw [hafter, hword, hrest, if_pos hunit, ih]
      simp only [List.append_assoc, List.cons_append]
      rfl
    · have hword : word = [] := by
        change (List.dropWhile isBlank _).takeWhile isWord = []
        rw [hnone]
        rfl
      rw [hword, hempty] at hunit
      cases hunit
  | case3 c cs hc number after word hunit ih =>
    rw [List.cons_append, spaceUnits, if_pos hc]
    dsimp only
    rw [hnumber, hbehind]
    have hnone : ¬ isUnitName (String.ofList
        (((cs.dropWhile isNumberChar ++ t).dropWhile isBlank).takeWhile isWord)) = true := by
      rcases ht.dropWhile_isBlank (cs.dropWhile isNumberChar) with hafter | ⟨-, -, hnone⟩
      · rwa [hafter, hword]
      · rw [hnone, List.takeWhile_nil, hempty]
        decide
    rw [if_neg hnone, ih, ← List.append_assoc]
  | case4 c cs hc ih => rw [List.cons_append, spaceUnits, if_neg hc, ih, List.cons_append]

def dotAt? : List Char → Option (List Char)
  | '·' :: after =>
    if (after.head?.map isBlank).getD false then some (after.dropWhile isBlank) else none
  | _ => none

theorem dotAt?_of_ne (h : ∀ after, x ≠ '·' :: after) : dotAt? x = none := by
  unfold dotAt?
  split
  · rename_i after
    exact absurd rfl (h after)
  · rfl

def timesAt? (cs : List Char) : Option (List Char) :=
  if ['\\', 'c', 'd', 'o', 't'] <+: cs then some (cs.drop 5)
  else if ['\\', 't', 'i', 'm', 'e', 's'] <+: cs then some (cs.drop 6)
  else if ['×'] <+: cs then some (cs.drop 1)
  else if cs.head?.any isBlank then dotAt? (cs.dropWhile isBlank)
  else none

theorem plainTimes_cons (c : Char) (cs : List Char) : plainTimes (c :: cs) =
    match timesAt? (c :: cs) with
    | some rest => ' ' :: '*' :: ' ' :: plainTimes rest
    | none => c :: plainTimes cs := by
  unfold timesAt?
  rw [plainTimes.eq_def]
  split
  · rename_i h
    cases h
  · rename_i rest h
    rw [h, if_pos ⟨rest, rfl⟩]
    rfl
  · rename_i rest h
    rw [h, if_neg (by simp), if_pos ⟨rest, rfl⟩]
    rfl
  · rename_i d ds hcdot htimes h
    obtain ⟨rfl, rfl⟩ := List.cons.inj h
    have hnot : ∀ word : List Char, (∀ rest, c :: cs ≠ '\\' :: (word ++ rest)) →
        ¬ '\\' :: word <+: c :: cs := by
      rintro word hword ⟨rest, hrest⟩
      exact hword rest hrest.symm
    rw [if_neg (hnot ['c', 'd', 'o', 't'] fun rest h => hcdot rest (List.cons.inj h).1 (List.cons.inj h).2),
      if_neg (hnot ['t', 'i', 'm', 'e', 's'] fun rest h =>
        htimes rest (List.cons.inj h).1 (List.cons.inj h).2)]
    by_cases hcross : c = '×'
    · rw [if_pos hcross, if_pos ⟨cs, by rw [hcross]; rfl⟩]
      rfl
    · have hplain : ¬ ['×'] <+: c :: cs := by
        rintro ⟨rest, hrest⟩
        exact hcross (List.cons.inj hrest).1.symm
      rw [if_neg hcross, if_neg hplain, List.head?_cons, Option.any_some]
      split
      · rename_i hc
        rw [List.dropWhile_cons, if_pos hc]
        split
        · rename_i after hafter
          rw [hafter, dotAt?]
          split <;> rfl
        · rename_i hdot
          rw [dotAt?_of_ne hdot]
      · rfl

theorem prefix_append_iff {word : List Char} (ht : IsTail t) (hblank : ' ' ∉ word)
    (hequal : '=' ∉ word) : word <+: x ++ t ↔ word <+: x :=
  ⟨prefix_of_prefix_append (ht.not_mem_head hblank hequal),
    fun h => h.trans (List.prefix_append x t)⟩

theorem dotAt?_append (ht : IsTail t)
    (hend : t = [' '] → ∀ d ∈ x.getLast?, isBlank d = false ∧ d ≠ '·') :
    dotAt? (x ++ t) = (dotAt? x).map (· ++ t) := by
  cases x with
  | nil => cases ht <;> rfl
  | cons c after =>
    by_cases hc : c = '·'
    · subst hc
      cases after with
      | nil =>
        cases ht with
        | blank => exact absurd rfl (hend rfl '·' rfl).2
        | equal y => rfl
      | cons d after =>
        rw [List.cons_append, List.cons_append, dotAt?, dotAt?, List.head?_cons, List.head?_cons]
        split
        · rcases ht.dropWhile_isBlank (d :: after) with h | ⟨hblank, hnone, -⟩
          · exact congrArg some h
          · have hlast := List.getLast_mem (List.cons_ne_nil d after)
            have hvisible := (hend hblank ((d :: after).getLast (List.cons_ne_nil d after))
              (List.getLast?_eq_some_getLast (List.cons_ne_nil d after))).1
            rw [List.dropWhile_eq_nil_iff.1 hnone _ hlast] at hvisible
            cases hvisible
        · rfl
    · have hne : ∀ rest after', c :: rest ≠ '·' :: after' :=
        fun rest after' h => hc (List.cons.inj h).1
      rw [List.cons_append, dotAt?_of_ne (hne _), dotAt?_of_ne (hne _)]
      rfl

theorem timesAt?_append (ht : IsTail t) (hx : x ≠ [])
    (hend : t = [' '] → ∀ d ∈ x.getLast?, isBlank d = false ∧ d ≠ '·') :
    timesAt? (x ++ t) = (timesAt? x).map (· ++ t) := by
  have hdrop : ∀ {word : List Char}, word <+: x →
      (x ++ t).drop word.length = x.drop word.length ++ t :=
    fun h => List.drop_append_of_le_length h.length_le
  unfold timesAt?
  simp only [prefix_append_iff ht (by decide : ' ' ∉ ['\\', 'c', 'd', 'o', 't']) (by decide),
    prefix_append_iff ht (by decide : ' ' ∉ ['\\', 't', 'i', 'm', 'e', 's']) (by decide),
    prefix_append_iff ht (by decide : ' ' ∉ ['×']) (by decide)]
  split
  · rename_i h
    exact congrArg some (hdrop h)
  · split
    · rename_i h
      exact congrArg some (hdrop h)
    · split
      · rename_i h
        exact congrArg some (hdrop h)
      · have hhead : (x ++ t).head? = x.head? := by
          obtain ⟨c, x, rfl⟩ := List.exists_cons_of_ne_nil hx
          rfl
        rw [hhead]
        split
        · rcases ht.dropWhile_isBlank x with h | ⟨-, hnone, h⟩
          · rw [h]
            refine dotAt?_append ht fun hblank d hd => hend hblank d ?_
            have hne : x.dropWhile isBlank ≠ [] := by
              intro hnil
              rw [hnil] at hd
              cases hd
            rwa [← List.getLast?_append_of_ne_nil (x.takeWhile isBlank) hne,
              List.takeWhile_append_dropWhile] at hd
          · rw [h, hnone]
            rfl
        · rfl

theorem exists_append_of_timesAt? {rest : List Char} (h : timesAt? x = some rest) :
    ∃ front, front ≠ [] ∧ x = front ++ rest := by
  unfold timesAt? at h
  split at h
  · rename_i hword
    obtain ⟨more, rfl⟩ := hword
    obtain rfl := Option.some.inj h
    exact ⟨['\\', 'c', 'd', 'o', 't'], by simp, rfl⟩
  · split at h
    · rename_i hword
      obtain ⟨more, rfl⟩ := hword
      obtain rfl := Option.some.inj h
      exact ⟨['\\', 't', 'i', 'm', 'e', 's'], by simp, rfl⟩
    · split at h
      · rename_i hword
        obtain ⟨more, rfl⟩ := hword
        obtain rfl := Option.some.inj h
        exact ⟨['×'], by simp, rfl⟩
      · split at h
        · unfold dotAt? at h
          split at h
          · rename_i after hafter
            split at h
            · obtain rfl := Option.some.inj h
              refine ⟨x.takeWhile isBlank ++ '·' :: after.takeWhile isBlank, by simp, ?_⟩
              rw [List.append_assoc, List.cons_append, List.takeWhile_append_dropWhile, ← hafter,
                List.takeWhile_append_dropWhile]
            · cases h
          · cases h
        · cases h

theorem plainTimes_append (ht : IsTail t) (x : List Char)
    (hend : t = [' '] → ∀ d ∈ x.getLast?, isBlank d = false ∧ d ≠ '·') :
    plainTimes (x ++ t) = plainTimes x ++ plainTimes t := by
  cases x with
  | nil =>
    have hnil : plainTimes [] = [] := by rw [plainTimes]
    rw [hnil]
    rfl
  | cons c x =>
    have hbehind : ∀ front rest, c :: x = front ++ rest → t = [' '] →
        ∀ d ∈ rest.getLast?, isBlank d = false ∧ d ≠ '·' := by
      intro front rest heq hblank d hd
      refine hend hblank d ?_
      rw [heq, List.getLast?_append, Option.mem_def.1 hd]
      rfl
    have htimes := timesAt?_append ht (List.cons_ne_nil c x) hend
    rw [List.cons_append] at htimes
    rw [List.cons_append, plainTimes_cons, plainTimes_cons, htimes]
    cases hrest : timesAt? (c :: x) with
    | none =>
      have ih := plainTimes_append ht x (hbehind [c] x rfl)
      dsimp only [Option.map_none]
      rw [ih, List.cons_append]
    | some rest =>
      obtain ⟨front, hfront, heq⟩ := exists_append_of_timesAt? hrest
      have hless : rest.length < (c :: x).length := by
        rw [heq, List.length_append]
        exact Nat.lt_add_of_pos_left (List.length_pos_iff.2 hfront)
      have ih := plainTimes_append ht rest (hbehind front rest heq)
      dsimp only [Option.map_some]
      rw [ih]
      rfl
termination_by x.length
decreasing_by
  · subst_vars
    exact Nat.lt_succ_self _
  · subst_vars
    exact hless

theorem plainDivide_append (ht : ∀ c ∈ t.head?, c ∉ ['d', 'i', 'v']) (x : List Char) :
    plainDivide (x ++ t) = plainDivide x ++ plainDivide t := by
  fun_induction plainDivide x with
  | case1 => rfl
  | case2 cs ih => exact congrArg ('/' :: ·) ih
  | case3 c cs hne ih =>
    rw [List.cons_append, plainDivide, ih, List.cons_append]
    intro rest hc hrest
    obtain ⟨more, hmore⟩ : ['d', 'i', 'v'] <+: cs := prefix_of_prefix_append ht ⟨rest, hrest.symm⟩
    exact hne more hc hmore.symm

end

structure IsSeparator (s : Char) : Prop where
  blank : isBlank s = false
  number : isNumberChar s = false
  word : isWord s = false
  alpha : s.isAlpha = false

section
variable {s : Char} {x y : List Char}

theorem isSeparator_equal : IsSeparator '=' := ⟨by decide, by decide, by decide, by decide⟩

theorem isSeparator_star : IsSeparator '*' := ⟨by decide, by decide, by decide, by decide⟩

theorem isSeparator_dot : IsSeparator '·' := ⟨by decide, by decide, by decide +kernel, by decide⟩

theorem foldGlued_cons (hs : IsSeparator s) (y : List Char) :
    foldGlued (s :: y) = s :: foldGlued y := by
  have hdigit : isDecimalDigit s = false := by
    have hnumber := hs.number
    rw [isNumberChar, Bool.or_eq_false_iff, Bool.or_eq_false_iff] at hnumber
    exact hnumber.1.1
  rw [foldGlued, if_neg (by rw [hdigit]; decide)]

theorem foldGlued_append_cons (hs : IsSeparator s) (x y : List Char) :
    foldGlued (x ++ s :: y) = foldGlued x ++ s :: foldGlued y := by
  have hhead : ∀ rest : List Char,
      ((rest ++ s :: y).head?.map isWord).getD false = (rest.head?.map isWord).getD false := by
    intro rest
    cases rest with
    | nil => exact hs.word
    | cons => rfl
  fun_induction foldGlued x with
  | case1 => exact foldGlued_cons hs y
  | case2 c cs hc number after word rest unit hunit hword ih =>
    rw [List.cons_append, foldGlued, if_pos hc]
    dsimp only
    rw [takeWhile_stop hs.number, dropWhile_stop hs.number, dropWhile_stop hs.blank,
      takeWhile_stop hs.alpha, dropWhile_stop hs.alpha, hunit]
    dsimp only
    rw [hhead, if_pos hword, ih, List.append_assoc]
  | case3 c cs hc number after word rest unit hunit hword ih =>
    rw [List.cons_append, foldGlued, if_pos hc]
    dsimp only
    rw [takeWhile_stop hs.number, dropWhile_stop hs.number, dropWhile_stop hs.blank,
      takeWhile_stop hs.alpha, dropWhile_stop hs.alpha, hunit]
    dsimp only
    rw [hhead, if_neg hword, ih, ← List.append_assoc]
  | case4 c cs hc number after word hunit ih =>
    rw [List.cons_append, foldGlued, if_pos hc]
    dsimp only
    rw [takeWhile_stop hs.number, dropWhile_stop hs.number, dropWhile_stop hs.blank,
      takeWhile_stop hs.alpha, hunit]
    dsimp only
    rw [ih, List.append_assoc]
  | case5 c cs hc ih => rw [List.cons_append, foldGlued, if_neg hc, ih, List.cons_append]

theorem dropRepeats_append_cons (hs : IsSeparator s) (unit x y : List Char) :
    dropRepeats unit (x ++ s :: y) = dropRepeats unit x ++ s :: y := by
  fun_induction dropRepeats unit x with
  | case1 =>
    have hvisible : ¬ isBlank s = true := by
      rw [hs.blank]
      decide
    rw [List.nil_append, dropRepeats, if_neg fun h => hvisible h.1]
  | case2 c cs hc ih =>
    rw [List.cons_append, dropRepeats, dropWhile_stop hs.blank, takeWhile_stop hs.word, if_pos hc,
      dropWhile_stop hs.word, ih]
  | case3 c cs hc =>
    rw [List.cons_append, dropRepeats, dropWhile_stop hs.blank, takeWhile_stop hs.word, if_neg hc]

theorem foldSpaced_append_cons (hs : IsSeparator s) (x y : List Char) :
    foldSpaced (x ++ s :: y) = foldSpaced x ++ s :: foldSpaced y := by
  fun_induction foldSpaced x with
  | case1 => rw [List.nil_append, foldSpaced, if_neg (by rw [hs.word]; decide), List.nil_append]
  | case2 c cs hc word hunit ih =>
    rw [List.cons_append, foldSpaced, if_pos hc]
    dsimp only
    rw [takeWhile_stop hs.word, dropWhile_stop hs.word, if_pos hunit, dropRepeats_append_cons hs, ih,
      List.append_assoc]
  | case3 c cs hc word hunit ih =>
    rw [List.cons_append, foldSpaced, if_pos hc]
    dsimp only
    rw [takeWhile_stop hs.word, dropWhile_stop hs.word, if_neg hunit, ih, List.append_assoc]
  | case4 c cs hc ih => rw [List.cons_append, foldSpaced, if_neg hc, ih, List.cons_append]

/-- Repeats are folded on either side of a separator by themselves. -/
theorem foldRepeats_append_cons {text : String} (hs : IsSeparator s) (htext : text.toList = x ++ s :: y) :
    (foldRepeats text).toList =
      (foldRepeats (String.ofList x)).toList ++ s :: (foldRepeats (String.ofList y)).toList := by
  simp only [foldRepeats, String.toList_ofList, htext, foldGlued_append_cons hs,
    foldSpaced_append_cons hs]

end

end UnitSheet
