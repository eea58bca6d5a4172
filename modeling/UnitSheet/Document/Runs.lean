set_option autoImplicit false

/-!
A stable order by merging runs. Ascending and descending stretches of a list are its runs; a short
one is extended by inserting what follows. Two neighbouring runs are merged as soon as the boundary
between them lies deeper in the repeated halving of the list than the next boundary. A merge takes
single elements, and strides over whole stretches while one side keeps winning.

With a comparison that orders all elements the answer is the only stable order. Elements that do not
compare, such as boxes without a place, end up where these steps leave them.
-/

namespace UnitSheet.Runs

variable {α : Type}

def holdsAt (p : α → Bool) (xs : List α) (i : Nat) : Bool := (xs[i]?).any p

def reach (p : Nat → Bool) (size last next : Nat) : Nat × Nat :=
  if next < size && p next then reach p size next (2 * next + 1) else (last, min next size)
termination_by size - next
decreasing_by
  rename_i h
  simp only [Bool.and_eq_true, decide_eq_true_eq] at h
  omega

def halve (p : Nat → Bool) (low high : Nat) : Nat :=
  if low < high then
    if p (low + (high - low) / 2) then halve p (low + (high - low) / 2 + 1) high
    else halve p low (low + (high - low) / 2)
  else high
termination_by high - low
decreasing_by all_goals omega

def countFromFront (p : α → Bool) (xs : List α) : Nat :=
  if holdsAt p xs 0 then
    let (last, next) := reach (holdsAt p xs) xs.length 0 1
    halve (holdsAt p xs) (last + 1) next
  else 0

def countFromBack (p : α → Bool) (xs : List α) : Nat :=
  let size := xs.length
  if holdsAt p xs (size - 1) then size
  else
    let (last, next) := reach (fun i => !holdsAt p xs (size - 1 - i)) size 0 1
    halve (holdsAt p xs) (size - next) (size - 1 - last)

def strideLength : Nat := 7

def lessPatience (patience : Nat) : Nat := if 1 < patience then patience - 1 else patience

mutual

/-- Merges two runs from the front. `patience` says how often in a row one side wins before the
merge strides; the counts say how often the left or the right run has won. The left run keeps one
element to the end. -/
def mergeFront (lt : α → α → Bool) (patience wonLeft wonRight : Nat) (left right : List α) :
    List α × Nat :=
  match left, right with
  | x :: xs, y :: ys =>
    if lt y x then
      if ys.isEmpty then (y :: x :: xs, patience)
      else
        let merged :=
          if patience ≤ wonRight + 1 then strideFront lt patience (x :: xs) ys
          else mergeFront lt patience 0 (wonRight + 1) (x :: xs) ys
        (y :: merged.1, merged.2)
    else if xs.length ≤ 1 then (x :: y :: ys ++ xs, patience)
    else
      let merged :=
        if patience ≤ wonLeft + 1 then strideFront lt patience xs (y :: ys)
        else mergeFront lt patience (wonLeft + 1) 0 xs (y :: ys)
      (x :: merged.1, merged.2)
  | xs, ys => (xs ++ ys, patience)
termination_by left.length + right.length
decreasing_by all_goals simp only [List.length_cons]; omega

def strideFront (lt : α → α → Bool) (patience : Nat) (left right : List α) : List α × Nat :=
  match right with
  | [] => (left, patience)
  | y :: ys =>
    let first := countFromFront (fun e => !lt y e) left
    match _h : left.drop first with
    | x :: z :: xs =>
      let second := countFromFront (fun e => lt e x) ys
      if ys.length ≤ second then (left.take first ++ y :: ys ++ x :: z :: xs, patience)
      else if xs.isEmpty then
        (left.take first ++ y :: ys.take second ++ x :: ys.drop second ++ [z], patience)
      else
        let merged :=
          if strideLength ≤ first || strideLength ≤ second then
            strideFront lt (lessPatience patience) (z :: xs) (ys.drop second)
          else mergeFront lt (patience + 1) 0 0 (z :: xs) (ys.drop second)
        (left.take first ++ y :: ys.take second ++ x :: merged.1, merged.2)
    | rest => (left.take first ++ y :: ys ++ rest, patience)
termination_by left.length + right.length
decreasing_by
  all_goals
    have h := congrArg List.length _h
    simp only [List.length_drop, List.length_cons] at h ⊢
    omega

end

mutual

/-- Merges two runs from the back; they and the answer are given with the last element in front.
The right run keeps one element to the end. -/
def mergeBack (lt : α → α → Bool) (patience wonLeft wonRight : Nat) (left right : List α) :
    List α × Nat :=
  match left, right with
  | x :: xs, y :: ys =>
    if lt y x then
      if xs.isEmpty then (x :: y :: ys, patience)
      else
        let merged :=
          if patience ≤ wonLeft + 1 then strideBack lt patience xs (y :: ys)
          else mergeBack lt patience (wonLeft + 1) 0 xs (y :: ys)
        (x :: merged.1, merged.2)
    else if ys.length ≤ 1 then (y :: x :: xs ++ ys, patience)
    else
      let merged :=
        if patience ≤ wonRight + 1 then strideBack lt patience (x :: xs) ys
        else mergeBack lt patience 0 (wonRight + 1) (x :: xs) ys
      (y :: merged.1, merged.2)
  | xs, ys => (xs ++ ys, patience)
termination_by left.length + right.length
decreasing_by all_goals simp only [List.length_cons]; omega

def strideBack (lt : α → α → Bool) (patience : Nat) (left right : List α) : List α × Nat :=
  match right with
  | [] => (left, patience)
  | y :: ys =>
    let first := left.length - countFromBack (fun e => !lt y e) left.reverse
    match _h : left.drop first with
    | [] => (left.take first ++ y :: ys, patience)
    | x :: xs =>
      let second :=
        if ys.length ≤ 1 then 0 else ys.length - countFromBack (fun e => lt e x) ys.reverse
      if ys.length ≤ second + 1 then
        (left.take first ++ y :: ys.take second ++ x :: xs ++ ys.drop second, patience)
      else if xs.isEmpty then
        (left.take first ++ y :: ys.take second ++ x :: ys.drop second, patience)
      else
        let merged :=
          if strideLength ≤ first || strideLength ≤ second then
            strideBack lt (lessPatience patience) xs (ys.drop second)
          else mergeBack lt (patience + 1) 0 0 xs (ys.drop second)
        (left.take first ++ y :: ys.take second ++ x :: merged.1, merged.2)
termination_by left.length + right.length
decreasing_by
  all_goals
    have h := congrArg List.length _h
    simp only [List.length_drop, List.length_cons] at h ⊢
    omega

end

def mergeInner (lt : α → α → Bool) (patience : Nat) (left right : List α) : List α × Nat :=
  if left.length ≤ right.length then
    match right with
    | [] => (left, patience)
    | y :: ys =>
      if left.length ≤ 1 || ys.isEmpty then (y :: ys ++ left, patience)
      else
        let merged := mergeFront lt patience 0 0 left ys
        (y :: merged.1, merged.2)
  else
    match left.reverse with
    | [] => (right, patience)
    | x :: xs =>
      if right.length ≤ 1 || xs.isEmpty then (right ++ left, patience)
      else
        let merged := mergeBack lt patience 0 0 xs right.reverse
        ((x :: merged.1).reverse, merged.2)

def mergePair (lt : α → α → Bool) (patience : Nat) (left right : List α) : List α × Nat :=
  match right.head? with
  | none => (left, patience)
  | some y =>
    let kept := countFromFront (fun e => !lt y e) left
    match (left.drop kept).getLast? with
    | none => (left ++ right, patience)
    | some x =>
      let size := countFromBack (fun e => lt e x) right
      let merged := mergeInner lt patience (left.drop kept) (right.take size)
      (left.take kept ++ merged.1 ++ right.drop size, merged.2)

def stretch (next : α → α → Bool) (x : α) : List α → Nat
  | [] => 0
  | y :: ys => if next x y then stretch next y ys + 1 else 0

def insertByHalving (lt : α → α → Bool) (run : List α) (x : α) : List α :=
  let point := halve (holdsAt (fun y => !lt x y) run) 0 run.length
  run.take point ++ x :: run.drop point

/-- The run at the front of a list, extended to `least` elements if there are so many. -/
def frontRun (lt : α → α → Bool) (least : Nat) : List α → List α
  | x :: y :: rest =>
    let descends := lt y x
    let size := 1 + stretch (fun a b => lt b a == descends) x (y :: rest)
    let front := (x :: y :: rest).take size
    ((rest.drop (size - 2)).take (least - size)).foldl (insertByHalving lt)
      (if descends then front.reverse else front)
  | xs => xs

/-- The least length of a run in a list of `size` elements: the list is halved until fewer than 64
are left, and one is added if a halving left a remainder. -/
def leastLength (size : Nat) (remainder : Nat := 0) : Nat :=
  if size < 64 then size + remainder else leastLength (size / 2) (max remainder (size % 2))
termination_by size
decreasing_by omega

/-- How often a list of `size` elements has to be halved until a cut falls between the midpoints of
two neighbouring runs, of which the first one starts at `start`. -/
def boundaryDepth (size start left right : Nat) : Nat :=
  let a := 2 * start + left
  let b := a + left + right
  ((List.range (size.log2 + 2)).find? fun k => a * Nat.pow 2 k / size != b * Nat.pow 2 k / size).getD 0

abbrev Pending (α : Type) := List (List α × Nat)

def collapse (lt : α → α → Bool) (depth patience : Nat) (last : List α) :
    Pending α → (List α × Nat) × Pending α
  | [] => ((last, patience), [])
  | (run, behind) :: waiting =>
    if depth < behind then
      let merged := mergePair lt patience run last
      collapse lt depth merged.2 merged.1 waiting
    else ((last, patience), (run, behind) :: waiting)

/-- Merges all runs. Of the last three, the middle one goes with the shorter neighbour. -/
def collapseAll (lt : α → α → Bool) (patience : Nat) (last : List α) : Pending α → List α
  | [] => last
  | [(run, _)] => (mergePair lt patience run last).1
  | (run, _) :: (before, behind) :: waiting =>
    if before.length < last.length then
      let merged := mergePair lt patience before run
      collapseAll lt merged.2 last ((merged.1, behind) :: waiting)
    else
      let merged := mergePair lt patience run last
      collapseAll lt merged.2 merged.1 ((before, behind) :: waiting)
termination_by waiting => waiting.length

def mergeRest (lt : α → α → Bool) (size least start patience : Nat) (last : List α)
    (waiting : Pending α) : List α → List α
  | [] => collapseAll lt patience last waiting
  | x :: xs =>
    let run := frontRun lt least (x :: xs)
    let depth := boundaryDepth size start last.length run.length
    let merged := collapse lt depth patience last waiting
    mergeRest lt size least (start + last.length) merged.1.2 run ((merged.1.1, depth) :: merged.2)
      (xs.drop (run.length - 1))
termination_by rest => rest.length
decreasing_by simp only [List.length_drop, List.length_cons]; omega

def mergeRuns (lt : α → α → Bool) (xs : List α) : List α :=
  let least := leastLength xs.length
  let run := frontRun lt least xs
  mergeRest lt xs.length least 0 strideLength run [] (xs.drop run.length)

end UnitSheet.Runs
