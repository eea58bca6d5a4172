import UnitSheet.Document.Runs

set_option autoImplicit false

namespace UnitSheet.Runs

variable {α : Type}

theorem stretch_le (next : α → α → Bool) (xs : List α) :
    ∀ x : α, stretch next x xs ≤ xs.length := by
  induction xs with
  | nil => intro x; exact Nat.le_refl _
  | cons y ys ih =>
    intro x
    have := ih y
    unfold stretch
    split <;> simp only [List.length_cons] <;> omega

theorem length_foldl_insertByHalving (lt : α → α → Bool) (xs : List α) :
    ∀ run : List α, (xs.foldl (insertByHalving lt) run).length = run.length + xs.length := by
  induction xs with
  | nil => simp
  | cons x xs ih =>
    intro run
    have h := congrArg List.length (List.take_append_drop
      (halve (holdsAt (fun y => !lt x y) run) 0 run.length) run)
    rw [List.foldl_cons, ih]
    simp only [insertByHalving, List.length_append, List.length_cons] at *
    omega

theorem length_frontRun_pos (lt : α → α → Bool) (least : Nat) (x : α) (xs : List α) :
    0 < (frontRun lt least (x :: xs)).length := by
  match xs with
  | [] => exact Nat.one_pos
  | y :: rest =>
    unfold frontRun
    dsimp only
    rw [length_foldl_insertByHalving]
    split <;> simp only [List.length_reverse, List.length_take, List.length_cons] <;> omega

def Pending.elements (waiting : Pending α) : List α := waiting.flatMap Prod.fst

section

variable [BEq α]

theorem count_take_add_count_drop (a : α) (n : Nat) (xs : List α) :
    (xs.take n).count a + (xs.drop n).count a = xs.count a := by
  rw [← List.count_append, List.take_append_drop]

mutual

theorem count_mergeFront (a : α) (lt : α → α → Bool) (patience wonLeft wonRight : Nat)
    (left right : List α) :
    (mergeFront lt patience wonLeft wonRight left right).1.count a =
      left.count a + right.count a := by
  match left, right with
  | [], ys => simp [mergeFront]
  | x :: xs, [] => simp [mergeFront]
  | x :: xs, y :: ys =>
    unfold mergeFront
    dsimp only
    split
    · split
      · rename_i h
        simp only [List.isEmpty_iff.1 h, List.count_cons, List.count_nil]
        omega
      · dsimp only
        rw [List.count_cons]
        split
        · have := count_strideFront a lt patience (x :: xs) ys
          simp only [List.count_cons] at *
          omega
        · have := count_mergeFront a lt patience 0 (wonRight + 1) (x :: xs) ys
          simp only [List.count_cons] at *
          omega
    · split
      · simp only [List.cons_append, List.count_cons, List.count_append]
        omega
      · dsimp only
        rw [List.count_cons]
        split
        · have := count_strideFront a lt patience xs (y :: ys)
          simp only [List.count_cons] at *
          omega
        · have := count_mergeFront a lt patience (wonLeft + 1) 0 xs (y :: ys)
          simp only [List.count_cons] at *
          omega
termination_by left.length + right.length
decreasing_by all_goals simp only [List.length_cons]; omega

theorem count_strideFront (a : α) (lt : α → α → Bool) (patience : Nat)
    (left right : List α) :
    (strideFront lt patience left right).1.count a = left.count a + right.count a := by
  match right with
  | [] => simp [strideFront]
  | y :: ys =>
    unfold strideFront
    dsimp only
    split
    · rename_i x z xs h
      have hl := count_take_add_count_drop a (countFromFront (fun e => !lt y e) left) left
      have hr := count_take_add_count_drop a (countFromFront (fun e => lt e x) ys) ys
      rw [h] at hl
      simp only [List.count_cons] at hl
      split
      · simp only [List.count_append, List.count_cons]
        omega
      · split
        · rename_i hx
          simp only [List.isEmpty_iff.1 hx] at hl ⊢
          simp only [List.count_append, List.count_cons, List.count_nil] at *
          omega
        · split
          · have := count_strideFront a lt (lessPatience patience) (z :: xs)
              (ys.drop (countFromFront (fun e => lt e x) ys))
            simp only [List.count_append, List.count_cons] at *
            omega
          · have := count_mergeFront a lt (patience + 1) 0 0 (z :: xs)
              (ys.drop (countFromFront (fun e => lt e x) ys))
            simp only [List.count_append, List.count_cons] at *
            omega
    · have hl := count_take_add_count_drop a (countFromFront (fun e => !lt y e) left) left
      simp only [List.count_append, List.count_cons]
      omega
termination_by left.length + right.length
decreasing_by
  all_goals
    have := congrArg List.length ‹left.drop _ = _›
    simp only [List.length_drop, List.length_cons] at this ⊢
    omega

end

mutual

theorem count_mergeBack (a : α) (lt : α → α → Bool) (patience wonLeft wonRight : Nat)
    (left right : List α) :
    (mergeBack lt patience wonLeft wonRight left right).1.count a =
      left.count a + right.count a := by
  match left, right with
  | [], ys => simp [mergeBack]
  | x :: xs, [] => simp [mergeBack]
  | x :: xs, y :: ys =>
    unfold mergeBack
    dsimp only
    split
    · split
      · rename_i h
        simp only [List.isEmpty_iff.1 h, List.count_cons, List.count_nil]
        omega
      · dsimp only
        rw [List.count_cons]
        split
        · have := count_strideBack a lt patience xs (y :: ys)
          simp only [List.count_cons] at *
          omega
        · have := count_mergeBack a lt patience (wonLeft + 1) 0 xs (y :: ys)
          simp only [List.count_cons] at *
          omega
    · split
      · simp only [List.cons_append, List.count_cons, List.count_append]
        omega
      · dsimp only
        rw [List.count_cons]
        split
        · have := count_strideBack a lt patience (x :: xs) ys
          simp only [List.count_cons] at *
          omega
        · have := count_mergeBack a lt patience 0 (wonRight + 1) (x :: xs) ys
          simp only [List.count_cons] at *
          omega
termination_by left.length + right.length
decreasing_by all_goals simp only [List.length_cons]; omega

theorem count_strideBack (a : α) (lt : α → α → Bool) (patience : Nat) (left right : List α) :
    (strideBack lt patience left right).1.count a = left.count a + right.count a := by
  match right with
  | [] => simp [strideBack]
  | y :: ys =>
    unfold strideBack
    generalize left.length - countFromBack (fun e => !lt y e) left.reverse = first
    dsimp only
    have hl := count_take_add_count_drop a first left
    split
    · rename_i h
      rw [h] at hl
      simp only [List.count_append, List.count_cons, List.count_nil] at *
      omega
    · rename_i x xs h
      generalize (if ys.length ≤ 1 then 0
        else ys.length - countFromBack (fun e => lt e x) ys.reverse) = second
      have hr := count_take_add_count_drop a second ys
      rw [h] at hl
      split
      · simp only [List.count_append, List.count_cons] at *
        omega
      · split
        · rename_i hx
          simp only [List.isEmpty_iff.1 hx] at hl ⊢
          simp only [List.count_append, List.count_cons, List.count_nil] at *
          omega
        · split
          · have := count_strideBack a lt (lessPatience patience) xs (ys.drop second)
            simp only [List.count_append, List.count_cons] at *
            omega
          · have := count_mergeBack a lt (patience + 1) 0 0 xs (ys.drop second)
            simp only [List.count_append, List.count_cons] at *
            omega
termination_by left.length + right.length
decreasing_by
  all_goals
    have := congrArg List.length ‹left.drop _ = _›
    simp only [List.length_drop, List.length_cons] at this ⊢
    omega

end

theorem count_mergeInner (a : α) (lt : α → α → Bool) (patience : Nat) (left right : List α) :
    (mergeInner lt patience left right).1.count a = left.count a + right.count a := by
  unfold mergeInner
  split
  · split
    · simp
    · split
      · simp only [List.cons_append, List.count_cons, List.count_append]
        omega
      · simp only [List.count_cons, count_mergeFront]
        omega
  · split
    · rename_i h
      simp [List.reverse_eq_nil_iff.1 h]
    · rename_i x xs h
      split
      · simp only [List.count_append]
        omega
      · have hl : left.count a = (x :: xs).count a := by rw [← h, List.count_reverse]
        simp only [List.count_reverse, List.count_cons, count_mergeBack] at *
        omega

theorem count_mergePair (a : α) (lt : α → α → Bool) (patience : Nat) (left right : List α) :
    (mergePair lt patience left right).1.count a = left.count a + right.count a := by
  unfold mergePair
  split
  · rename_i h
    simp [List.head?_eq_none_iff.1 h]
  · dsimp only
    split
    · rw [List.count_append]
    · rename_i y _ _ x _
      have hl := count_take_add_count_drop a (countFromFront (fun e => !lt y e) left) left
      have hr := count_take_add_count_drop a (countFromBack (fun e => lt e x) right) right
      simp only [List.count_append, count_mergeInner]
      omega

theorem count_insertByHalving (a : α) (lt : α → α → Bool) (run : List α) (x : α) :
    (insertByHalving lt run x).count a = run.count a + [x].count a := by
  have h := count_take_add_count_drop a (halve (holdsAt (fun y => !lt x y) run) 0 run.length) run
  simp only [insertByHalving, List.count_append, List.count_cons, List.count_nil]
  omega

theorem count_foldl_insertByHalving (a : α) (lt : α → α → Bool) (xs : List α) :
    ∀ run : List α, (xs.foldl (insertByHalving lt) run).count a = run.count a + xs.count a := by
  induction xs with
  | nil => simp
  | cons x xs ih =>
    intro run
    rw [List.foldl_cons, ih, count_insertByHalving]
    simp only [List.count_cons, List.count_nil]
    omega

theorem count_frontRun (a : α) (lt : α → α → Bool) (least : Nat) (xs : List α) :
    (frontRun lt least xs).count a = (xs.take (frontRun lt least xs).length).count a := by
  match xs with
  | [] => rfl
  | [x] => rfl
  | x :: y :: rest =>
    have hle := stretch_le (fun p q => lt q p == lt y x) (y :: rest) x
    have hge : 1 ≤ stretch (fun p q => lt q p == lt y x) x (y :: rest) := by simp [stretch]
    unfold frontRun
    dsimp only
    generalize stretch (fun p q => lt q p == lt y x) x (y :: rest) = n at hle hge
    obtain ⟨m, rfl⟩ : ∃ m, n = m + 1 := ⟨n - 1, by omega⟩
    have hm : 1 + (m + 1) = m + 2 := by omega
    simp only [List.length_cons] at hle
    have hfront : (if lt y x = true then ((x :: y :: rest).take (m + 2)).reverse
        else (x :: y :: rest).take (m + 2)).count a = ((x :: y :: rest).take (m + 2)).count a := by
      split
      · exact List.count_reverse
      · rfl
    have hlength : (if lt y x = true then ((x :: y :: rest).take (m + 2)).reverse
        else (x :: y :: rest).take (m + 2)).length = m + 2 := by
      split <;> simp <;> omega
    have hslice : ((x :: y :: rest).drop (m + 2)).take (least - (m + 2)) =
        (rest.drop m).take (least - (m + 2)) := rfl
    rw [hm, count_foldl_insertByHalving, length_foldl_insertByHalving, hfront, hlength,
      Nat.add_sub_cancel, ← hslice, List.length_take, ← List.count_append, ← List.take_add]
    congr 1
    rw [List.take_eq_take_iff, List.length_drop]
    omega

theorem count_collapse (a : α) (lt : α → α → Bool) (depth : Nat) (waiting : Pending α) :
    ∀ (patience : Nat) (last : List α),
      (collapse lt depth patience last waiting).1.1.count a +
        (Pending.elements (collapse lt depth patience last waiting).2).count a =
      last.count a + (Pending.elements waiting).count a := by
  induction waiting with
  | nil => simp [collapse, Pending.elements]
  | cons run waiting ih =>
    intro patience last
    unfold collapse
    split
    · dsimp only
      rw [ih, count_mergePair]
      simp only [Pending.elements, List.flatMap_cons, List.count_append]
      omega
    · rfl

theorem count_collapseAll (a : α) (lt : α → α → Bool) (patience : Nat) (last : List α)
    (waiting : Pending α) :
    (collapseAll lt patience last waiting).count a =
      last.count a + (Pending.elements waiting).count a := by
  fun_induction collapseAll lt patience last waiting with
  | case1 => simp [Pending.elements]
  | case2 =>
    simp only [Pending.elements, List.flatMap_cons, List.flatMap_nil, count_mergePair,
      List.append_nil]
    omega
  | case3 patience last run depth before behind waiting h merged ih =>
    simp only [Pending.elements, List.flatMap_cons, List.count_append] at *
    rw [ih, count_mergePair]
    omega
  | case4 patience last run depth before behind waiting h merged ih =>
    simp only [Pending.elements, List.flatMap_cons, List.count_append] at *
    rw [ih, count_mergePair]
    omega

theorem count_mergeRest (a : α) (lt : α → α → Bool) (size least start patience : Nat)
    (last : List α) (waiting : Pending α) (rest : List α) :
    (mergeRest lt size least start patience last waiting rest).count a =
      last.count a + (Pending.elements waiting).count a + rest.count a := by
  fun_induction mergeRest lt size least start patience last waiting rest with
  | case1 => simp [count_collapseAll]
  | case2 start patience last waiting x xs run depth merged ih =>
    have hc : merged.1.1.count a + (Pending.elements merged.2).count a =
        last.count a + (Pending.elements waiting).count a :=
      count_collapse a lt depth waiting patience last
    have hr := count_frontRun a lt least (x :: xs)
    have hd := count_take_add_count_drop a (frontRun lt least (x :: xs)).length (x :: xs)
    obtain ⟨n, hn⟩ : ∃ n, run.length = n + 1 :=
      ⟨run.length - 1, by have : 0 < run.length := length_frontRun_pos lt least x xs; omega⟩
    rw [ih]
    change run.count a = (List.take run.length (x :: xs)).count a at hr
    change (List.take run.length (x :: xs)).count a + (List.drop run.length (x :: xs)).count a =
      (x :: xs).count a at hd
    have hrest : (x :: xs).drop run.length = xs.drop (run.length - 1) := by
      rw [hn, List.drop_succ_cons, Nat.add_sub_cancel]
    rw [hrest] at hd
    have hp : (Pending.elements ((merged.1.1, depth) :: merged.2)).count a =
        merged.1.1.count a + (Pending.elements merged.2).count a := by
      simp [Pending.elements]
    rw [hp]
    omega

end

theorem mergeRuns_perm (lt : α → α → Bool) (xs : List α) : (mergeRuns lt xs).Perm xs := by
  classical
  rw [List.perm_iff_count]
  intro a
  have hr := count_frontRun a lt (leastLength xs.length) xs
  have hd := count_take_add_count_drop a (frontRun lt (leastLength xs.length) xs).length xs
  simp only [mergeRuns, count_mergeRest, Pending.elements, List.flatMap_nil, List.count_nil]
  omega

end UnitSheet.Runs
