import Mathlib.Data.List.Basic
import UnitSheet.Document.Recompute

set_option autoImplicit false

namespace UnitSheet

def Line.fresh (l : Line) : Line := { id := l.id, text := l.text, place := l.place }

def Document.fresh (d : Document) : Document :=
  { d with lines := d.lines.map Line.fresh, store := .empty }

def Line.definition? (l : Line) : Option (String × Quantity) :=
  match readLine l.text with
  | .error _ => none
  | .ok (statement, _) => l.outcome.result?.bind fun result => statement.target.map (·, result)

def Store.enter (store : Store) (l : Line) : Store :=
  match l.definition? with
  | some (name, result) => store.define name result l.id
  | none => store

section

variable {o : Options} {s : Scope} {l : Line}

def Line.settled (l : Line) (outcome : Outcome) : Line :=
  { l with kind := lineKind (normalize l.text), outcome }

theorem evaluateLine_of_readLine {strict : Bool} {text : String} {statement : Statement} {tier : Tier}
    (h : readLine text = .ok (statement, tier)) :
    evaluateLine strict s text =
      (tier.value strict s.store (s.evalCell []) statement.expr).map (statement, ·) := by
  unfold evaluateLine evaluateLineWith
  rw [h]

theorem computeLine_eq_ok {text : String} {c : Computed} (h : computeLine o s text = .ok c) :
    ∃ statement tier, readLine text = .ok (statement, tier) ∧
      tier.value o.strict s.store (s.evalCell []) statement.expr = .ok c.value ∧
        c.target = statement.target := by
  unfold computeLine at h
  cases hread : readLine text with
  | error e => simp [evaluateLine, evaluateLineWith, hread] at h
  | ok found =>
    obtain ⟨statement, tier⟩ := found
    refine ⟨statement, tier, rfl, ?_⟩
    rw [evaluateLine_of_readLine hread] at h
    cases hv : tier.value o.strict s.store (s.evalCell []) statement.expr with
    | error f =>
      rw [hv] at h
      cases h
    | ok value =>
      simp only [hv, Except.map] at h
      split at h
      · cases h
      · obtain rfl := Except.ok.inj h
        exact ⟨rfl, rfl⟩

theorem recompute_of_error {f : Failure} (hkind : lineKind (normalize l.text) ≠ .text)
    (h : computeLine o s l.text = .error f) :
    l.recompute o s = match f with
      | .fault fault => ⟨l.settled .blank, s.store, some fault⟩
      | .mistake e => ⟨l.settled (.failed e), s.store, none⟩ := by
  cases f <;> simp [Line.recompute, Line.settled, hkind, h]

theorem recompute_of_ok {c : Computed} (hkind : lineKind (normalize l.text) ≠ .text)
    (h : computeLine o s l.text = .ok c) :
    l.recompute o s = ⟨l.settled (.value c.value c.shown),
      (match c.target with
        | some name => s.store.define name c.value l.id
        | none => s.store), none⟩ := by
  cases htarget : c.target <;> simp [Line.recompute, Line.settled, hkind, h, htarget]

theorem definition?_settled {statement : Statement} {tier : Tier}
    (hread : readLine l.text = .ok (statement, tier)) (q : Quantity) (shown : String) :
    (l.settled (.value q shown)).definition? = statement.target.map (·, q) := by
  simp only [Line.definition?, Line.settled, hread]
  rfl

theorem turn_cases (o : Options) (s : Scope) (l : Line) :
    (lineKind (normalize l.text) = .text ∧
      l.recompute o s = ⟨l.settled .blank, s.store, none⟩) ∨
    lineKind (normalize l.text) ≠ .text ∧
      ((∃ fault, computeLine o s l.text = .error (.fault fault) ∧
        l.recompute o s = ⟨l.settled .blank, s.store, some fault⟩) ∨
      (∃ e, computeLine o s l.text = .error (.mistake e) ∧
        l.recompute o s = ⟨l.settled (.failed e), s.store, none⟩) ∨
      ∃ c, computeLine o s l.text = .ok c ∧
        l.recompute o s = ⟨l.settled (.value c.value c.shown),
          s.store.enter (l.settled (.value c.value c.shown)), none⟩) := by
  by_cases hkind : lineKind (normalize l.text) = .text
  · refine .inl ⟨hkind, ?_⟩
    simp [Line.recompute, Line.settled, hkind]
  · refine .inr ⟨hkind, ?_⟩
    cases hc : computeLine o s l.text with
    | error f =>
      cases f with
      | fault fault => exact .inl ⟨fault, rfl, recompute_of_error hkind hc⟩
      | mistake e => exact .inr (.inl ⟨e, rfl, recompute_of_error hkind hc⟩)
    | ok c =>
      obtain ⟨statement, tier, hread, -, htarget⟩ := computeLine_eq_ok hc
      refine .inr (.inr ⟨c, rfl, ?_⟩)
      rw [recompute_of_ok hkind hc, Store.enter, definition?_settled hread, htarget]
      cases statement.target <;> simp only [Option.map_none, Option.map_some, Line.settled]

theorem fresh_settled (l : Line) (outcome : Outcome) : (l.settled outcome).fresh = l.fresh := by
  simp only [Line.fresh, Line.settled]

theorem recompute_fresh (o : Options) (s : Scope) (l : Line) :
    l.fresh.recompute o s = l.recompute o s := rfl

theorem fresh_recompute (o : Options) (s : Scope) (l : Line) :
    (l.recompute o s).line.fresh = l.fresh := by
  rcases turn_cases o s l with ⟨-, h⟩ | ⟨-, ⟨_, -, h⟩ | ⟨_, -, h⟩ | ⟨_, -, h⟩⟩ <;>
    rw [h, fresh_settled]

theorem definition?_of_result (h : l.outcome.result? = none) : l.definition? = none := by
  unfold Line.definition?
  split
  · rfl
  · rw [h]
    rfl

theorem enter_of_result {store : Store} (h : l.outcome.result? = none) : store.enter l = store := by
  rw [Store.enter, definition?_of_result h]

/-- The names behind a turn are those before it, with what the line defines. -/
theorem store_recompute (o : Options) (s : Scope) (l : Line) :
    (l.recompute o s).store = s.store.enter (l.recompute o s).line := by
  rcases turn_cases o s l with ⟨-, h⟩ | ⟨-, ⟨_, -, h⟩ | ⟨_, -, h⟩ | ⟨_, -, h⟩⟩ <;> rw [h]
  all_goals exact (enter_of_result rfl).symm

theorem recompute_of_fault {fault : Fault} (h : (l.recompute o s).fault = some fault) :
    l.recompute o s = ⟨l.settled .blank, s.store, some fault⟩ := by
  rcases turn_cases o s l with ⟨-, hturn⟩ | ⟨-, ⟨_, -, hturn⟩ | ⟨_, -, hturn⟩ | ⟨_, -, hturn⟩⟩ <;>
    rw [hturn] at h ⊢ <;> cases h
  rfl

end

section

variable {Place Place' : Type} {o : Options} {sheet : Sheet} {addresses : AddressReader}
  {store : Store}

theorem runLines_cons (l : Line) (place : Place) (rest : List (Line × Place)) :
    runLines o sheet addresses store ((l, place) :: rest) =
      (l.recompute o ⟨store, sheet, addresses⟩).andThen place rest
        (fun store => runLines o sheet addresses store rest) := by
  rw [runLines]

theorem andThen_of_fault {turn : Turn} {fault : Fault} (h : turn.fault = some fault) (place : Place)
    (behind : List (Line × Place)) (goOn : Store → Pass Place) :
    turn.andThen place behind goOn = ⟨(turn.line, place) :: behind, turn.store, some fault⟩ := by
  rw [Turn.andThen, h]

theorem andThen_of_none {turn : Turn} (h : turn.fault = none) (place : Place)
    (behind : List (Line × Place)) (goOn : Store → Pass Place) :
    turn.andThen place behind goOn =
      ⟨(turn.line, place) :: (goOn turn.store).lines, (goOn turn.store).store,
        (goOn turn.store).fault⟩ := by
  rw [Turn.andThen, h]

variable (o sheet addresses) in
theorem map_fresh_runLines (store : Store) (lines : List (Line × Place)) :
    (runLines o sheet addresses store lines).lines.map (Prod.map Line.fresh id) =
      lines.map (Prod.map Line.fresh id) := by
  induction lines generalizing store with
  | nil => rfl
  | cons entry rest ih =>
    obtain ⟨l, place⟩ := entry
    rw [runLines_cons]
    have hline := fresh_recompute o ⟨store, sheet, addresses⟩ l
    generalize l.recompute o ⟨store, sheet, addresses⟩ = turn at hline ⊢
    cases hturn : turn.fault with
    | some fault => simp [andThen_of_fault hturn, hline]
    | none => simp [andThen_of_none hturn, hline, ih]

variable (o sheet addresses) in
theorem length_runLines (store : Store) (lines : List (Line × Place)) :
    (runLines o sheet addresses store lines).lines.length = lines.length := by
  simpa using congrArg List.length (map_fresh_runLines o sheet addresses store lines)

variable (o sheet addresses) in
theorem map_snd_runLines (store : Store) (lines : List (Line × Place)) :
    (runLines o sheet addresses store lines).lines.map Prod.snd = lines.map Prod.snd := by
  have h := congrArg (List.map Prod.snd) (map_fresh_runLines o sheet addresses store lines)
  simpa [List.map_map, Function.comp_def] using h

/-- What earlier passes left on the lines does not matter, if no fault leaves it there. -/
theorem runLines_fresh (store : Store) (lines : List (Line × Place)) :
    (runLines o sheet addresses store (lines.map (Prod.map Line.fresh id))).fault =
        (runLines o sheet addresses store lines).fault ∧
      ((runLines o sheet addresses store lines).fault = none →
        runLines o sheet addresses store (lines.map (Prod.map Line.fresh id)) =
          runLines o sheet addresses store lines) := by
  induction lines generalizing store with
  | nil => exact ⟨rfl, fun _ => rfl⟩
  | cons entry rest ih =>
    obtain ⟨l, place⟩ := entry
    simp only [List.map_cons, Prod.map_apply, id_eq, runLines_cons, recompute_fresh]
    generalize l.recompute o ⟨store, sheet, addresses⟩ = turn
    cases hturn : turn.fault with
    | some fault => simp [andThen_of_fault hturn]
    | none =>
      obtain ⟨hfault, hpass⟩ := ih turn.store
      simp only [andThen_of_none hturn]
      exact ⟨hfault, fun h => by rw [hpass h]⟩

theorem runLines_of_map_fresh {xs ys : List (Line × Place)}
    (h : xs.map (Prod.map Line.fresh id) = ys.map (Prod.map Line.fresh id))
    (hnone : (runLines o sheet addresses store ys).fault = none) :
    runLines o sheet addresses store xs = runLines o sheet addresses store ys := by
  obtain ⟨hfault, hpass⟩ := runLines_fresh (o := o) store xs
  rw [h, (runLines_fresh store ys).1] at hfault
  rw [← hpass (hfault.symm.trans hnone), h, (runLines_fresh store ys).2 hnone]

/-- Places do not matter for what a pass computes. -/
theorem runLines_of_map_fst {xs : List (Line × Place)} {ys : List (Line × Place')}
    (h : xs.map Prod.fst = ys.map Prod.fst) (store : Store) :
    (runLines o sheet addresses store xs).lines.map Prod.fst =
        (runLines o sheet addresses store ys).lines.map Prod.fst ∧
      (runLines o sheet addresses store xs).store = (runLines o sheet addresses store ys).store ∧
      (runLines o sheet addresses store xs).fault = (runLines o sheet addresses store ys).fault := by
  induction xs generalizing ys store with
  | nil =>
    obtain rfl := List.map_eq_nil_iff.1 h.symm
    exact ⟨rfl, rfl, rfl⟩
  | cons entry xs ih =>
    obtain ⟨⟨l', place'⟩, ys', rfl, hl, hys⟩ := List.map_eq_cons_iff.1 h.symm
    obtain ⟨l, place⟩ := entry
    obtain rfl : l' = l := hl
    simp only [runLines_cons]
    generalize l'.recompute o ⟨store, sheet, addresses⟩ = turn
    cases hturn : turn.fault with
    | some fault => simp [andThen_of_fault hturn, hys]
    | none =>
      obtain ⟨hlines, hstore, hfault⟩ := ih hys.symm turn.store
      simp [andThen_of_none hturn, hlines, hstore, hfault]

theorem runLines_append_of_none {xs ys : List (Line × Place)}
    (h : (runLines o sheet addresses store xs).fault = none) :
    runLines o sheet addresses store (xs ++ ys) =
      ⟨(runLines o sheet addresses store xs).lines ++
          (runLines o sheet addresses (runLines o sheet addresses store xs).store ys).lines,
        (runLines o sheet addresses (runLines o sheet addresses store xs).store ys).store,
        (runLines o sheet addresses (runLines o sheet addresses store xs).store ys).fault⟩ := by
  induction xs generalizing store with
  | nil => rfl
  | cons entry xs ih =>
    obtain ⟨l, place⟩ := entry
    rw [List.cons_append]
    simp only [runLines_cons] at h ⊢
    generalize l.recompute o ⟨store, sheet, addresses⟩ = turn at h ⊢
    cases hturn : turn.fault with
    | some fault =>
      rw [andThen_of_fault hturn] at h
      cases h
    | none =>
      simp only [andThen_of_none hturn] at h ⊢
      simp [ih h]

theorem runLines_append_of_fault {xs ys : List (Line × Place)} {fault : Fault}
    (h : (runLines o sheet addresses store xs).fault = some fault) :
    runLines o sheet addresses store (xs ++ ys) =
      ⟨(runLines o sheet addresses store xs).lines ++ ys,
        (runLines o sheet addresses store xs).store, some fault⟩ := by
  induction xs generalizing store with
  | nil => cases h
  | cons entry xs ih =>
    obtain ⟨l, place⟩ := entry
    rw [List.cons_append]
    simp only [runLines_cons] at h ⊢
    generalize l.recompute o ⟨store, sheet, addresses⟩ = turn at h ⊢
    cases hturn : turn.fault with
    | some other =>
      simp only [andThen_of_fault hturn] at h ⊢
      simp [h]
    | none =>
      simp only [andThen_of_none hturn] at h ⊢
      simp [ih h]

variable (o sheet addresses) in
theorem take_runLines (store : Store) (lines : List (Line × Place)) (k : Nat) :
    (runLines o sheet addresses store lines).lines.take k =
      (runLines o sheet addresses store (lines.take k)).lines := by
  have hlength : (runLines o sheet addresses store (lines.take k)).lines.length =
      min k lines.length := by
    rw [length_runLines, List.length_take]
  conv_lhs => rw [← List.take_append_drop k lines]
  cases hfault : (runLines o sheet addresses store (lines.take k)).fault with
  | none =>
    rw [runLines_append_of_none hfault]
    rcases Nat.le_total k lines.length with h | h
    · exact List.take_left' (by omega)
    · have hdrop : lines.drop k = [] := List.drop_eq_nil_of_le h
      rw [hdrop]
      simpa [runLines] using List.take_of_length_le (by omega)
  | some fault =>
    rw [runLines_append_of_fault hfault]
    rcases Nat.le_total k lines.length with h | h
    · exact List.take_left' (by omega)
    · rw [List.drop_eq_nil_of_le h, List.append_nil]
      exact List.take_of_length_le (by rw [hlength]; omega)

/-- A fault cuts a pass at one line: the lines before it have had their turns, the line is left
blank, and the lines behind it and the names that those before it define are as they were. -/
theorem exists_cut_of_fault {lines : List (Line × Place)} {fault : Fault}
    (h : (runLines o sheet addresses store lines).fault = some fault) :
    ∃ before l place behind, lines = before ++ (l, place) :: behind ∧
      (runLines o sheet addresses store before).fault = none ∧
      (l.recompute o ⟨(runLines o sheet addresses store before).store, sheet, addresses⟩).fault =
        some fault ∧
      runLines o sheet addresses store lines =
        ⟨(runLines o sheet addresses store before).lines ++
            (l.settled .blank, place) :: behind,
          (runLines o sheet addresses store before).store, some fault⟩ := by
  induction lines generalizing store with
  | nil => cases h
  | cons entry rest ih =>
    obtain ⟨l, place⟩ := entry
    rw [runLines_cons] at h ⊢
    cases hturn : (l.recompute o ⟨store, sheet, addresses⟩).fault with
    | some other =>
      simp only [andThen_of_fault hturn] at h ⊢
      refine ⟨[], l, place, rest, rfl, rfl, hturn.trans h, ?_⟩
      rw [recompute_of_fault hturn, h]
      rfl
    | none =>
      simp only [andThen_of_none hturn] at h ⊢
      obtain ⟨before, l', place', behind, hlines, hnone, hfault, hpass⟩ := ih h
      refine ⟨(l, place) :: before, l', place', behind, by rw [hlines]; rfl, ?_, ?_, ?_⟩
      · simpa [runLines_cons, andThen_of_none hturn] using hnone
      · simpa [runLines_cons, andThen_of_none hturn] using hfault
      · simp [runLines_cons, andThen_of_none hturn, hpass]

/-- Without a fault, the names behind a pass are what its lines define, one after the other. -/
theorem store_runLines {lines : List (Line × Place)}
    (h : (runLines o sheet addresses store lines).fault = none) :
    (runLines o sheet addresses store lines).store =
      ((runLines o sheet addresses store lines).lines.map Prod.fst).foldl Store.enter store := by
  induction lines generalizing store with
  | nil => rfl
  | cons entry rest ih =>
    obtain ⟨l, place⟩ := entry
    rw [runLines_cons] at h ⊢
    have hstore := store_recompute o ⟨store, sheet, addresses⟩ l
    generalize l.recompute o ⟨store, sheet, addresses⟩ = turn at h hstore ⊢
    cases hturn : turn.fault with
    | some fault =>
      rw [andThen_of_fault hturn] at h
      cases h
    | none =>
      simp only [andThen_of_none hturn] at h ⊢
      rw [ih h, List.map_cons, List.foldl_cons, hstore]

end

section

variable {xs : List (Line × Nat)} {lines : List Line}

theorem eq_of_mem_zipIdx {a b : Line × Nat} (ha : a ∈ lines.zipIdx) (hb : b ∈ lines.zipIdx)
    (h : a.2 = b.2) : a = b := by
  have ha := List.mem_zipIdx_iff_getElem?.1 ha
  have hb := List.mem_zipIdx_iff_getElem?.1 hb
  rw [h, hb] at ha
  exact Prod.ext (Option.some.inj ha).symm h

theorem pairwise_sorted (xs : List (Line × Nat)) :
    (xs.mergeSort fun a b => decide (a.2 ≤ b.2)).Pairwise fun a b => a.2 ≤ b.2 := by
  have h : (xs.mergeSort fun a b => decide (a.2 ≤ b.2)).Pairwise
      fun a b => decide (a.2 ≤ b.2) = true := by
    refine List.pairwise_mergeSort (fun a b c hab hbc => ?_) (fun a b => ?_) xs
    · simp only [decide_eq_true_eq] at *
      omega
    · simp only [Bool.or_eq_true, decide_eq_true_eq]
      omega
  exact h.imp of_decide_eq_true

theorem pairwise_lt_zipIdx {α : Type} (xs : List α) : xs.zipIdx.Pairwise fun a b => a.2 < b.2 := by
  have h : (xs.zipIdx.map Prod.snd).Pairwise (· < ·) := by
    rw [List.zipIdx_map_snd]
    exact List.pairwise_lt_range'
  exact List.pairwise_map.1 h

theorem pairwise_zipIdx (lines : List Line) : lines.zipIdx.Pairwise fun a b => a.2 ≤ b.2 :=
  (pairwise_lt_zipIdx lines).imp Nat.le_of_lt

theorem filterMap_map_snd (h : ∀ x ∈ xs, x ∈ lines.zipIdx) :
    (xs.map Prod.snd).filterMap (fun i => lines[i]?.map (·, i)) = xs := by
  rw [List.filterMap_map]
  refine (List.filterMap_congr fun x hx => ?_).trans List.filterMap_some
  rw [Function.comp_apply, List.mem_zipIdx_iff_getElem?.1 (h x hx)]
  rfl

theorem restoreOrder_of_perm (h : xs.Perm lines.zipIdx) : restoreOrder xs = lines := by
  have hperm := (List.mergeSort_perm xs fun a b => decide (a.2 ≤ b.2)).trans h
  have hsorted : xs.mergeSort (fun a b => decide (a.2 ≤ b.2)) = lines.zipIdx := by
    refine List.Perm.eq_of_pairwise (fun a b ha hb hab hba => ?_) (pairwise_sorted xs)
      (pairwise_zipIdx lines) hperm
    exact eq_of_mem_zipIdx (hperm.mem_iff.1 ha) hb (Nat.le_antisymm hab hba)
  rw [restoreOrder, hsorted, List.zipIdx_map_fst]

theorem zipIdx_restoreOrder_perm (h : (xs.map Prod.snd).Perm (List.range xs.length)) :
    (restoreOrder xs).zipIdx.Perm xs := by
  have hperm := List.mergeSort_perm xs fun a b => decide (a.2 ≤ b.2)
  have hsnd : (xs.mergeSort fun a b => decide (a.2 ≤ b.2)).map Prod.snd = List.range xs.length := by
    have hle : ∀ m n : Nat, m ≤ n → n ≤ m → m = n := fun m n => Nat.le_antisymm
    exact List.Perm.eq_of_pairwise (fun m n _ _ => hle m n) (List.pairwise_map.2 (pairwise_sorted xs))
      List.pairwise_le_range ((hperm.map _).trans h)
  have hzip : (restoreOrder xs).zipIdx = xs.mergeSort fun a b => decide (a.2 ≤ b.2) := by
    rw [restoreOrder, List.zipIdx_eq_zip_range', List.length_map, List.length_mergeSort,
      ← List.range_eq_range', ← hsnd, List.zip_map']
    exact List.map_id _
  rw [hzip]
  exact hperm

theorem eq_of_zipIdx_perm {lines' : List Line} (h : lines'.zipIdx.Perm lines.zipIdx) :
    lines' = lines :=
  (restoreOrder_of_perm (.refl _)).symm.trans (restoreOrder_of_perm h)

end

section

variable {o : Options} {sheet : Sheet} {addresses : AddressReader}

theorem recompute_eq (d : Document) (o : Options) (sheet : Sheet) (addresses : AddressReader) :
    d.recompute o sheet addresses =
      ({ d with
          lines := restoreOrder (runLines o sheet addresses .empty d.numbered).lines
          store := (runLines o sheet addresses .empty d.numbered).store },
        (runLines o sheet addresses .empty d.numbered).fault) := rfl

theorem ordered_perm (d : Document) : d.ordered.Perm d.lines := by
  have h := d.numbered_perm.map Prod.fst
  rwa [List.zipIdx_map_fst] at h

theorem map_snd_numbered (d : Document) :
    d.numbered.map Prod.snd = d.layout.order (d.lines.map Line.place) := by
  have hbound : ∀ i ∈ d.layout.order (d.lines.map Line.place), i < d.lines.length := by
    intro i hi
    have hi := (d.layout.order_perm _).mem_iff.1 hi
    rwa [List.length_map, List.mem_range] at hi
  rw [Document.numbered, List.map_filterMap]
  calc (d.layout.order (d.lines.map Line.place)).filterMap
        (fun i => (d.lines[i]?.map (·, i)).map Prod.snd)
      = (d.layout.order (d.lines.map Line.place)).filterMap some := by
        refine List.filterMap_congr fun i hi => ?_
        rw [List.getElem?_eq_getElem (hbound i hi)]
        rfl
    _ = d.layout.order (d.lines.map Line.place) := List.filterMap_some

theorem map_snd_numbered_perm (d : Document) :
    (d.numbered.map Prod.snd).Perm (List.range d.numbered.length) := by
  rw [map_snd_numbered, d.numbered_perm.length_eq, List.length_zipIdx, ← d.lines.length_map]
  exact d.layout.order_perm _

variable (o sheet addresses) in
theorem zipIdx_recomputed_perm (d : Document) (store : Store) :
    (restoreOrder (runLines o sheet addresses store d.numbered).lines).zipIdx.Perm
      (runLines o sheet addresses store d.numbered).lines := by
  refine zipIdx_restoreOrder_perm ?_
  rw [map_snd_runLines, length_runLines]
  exact map_snd_numbered_perm d

theorem zipIdx_map_fresh (lines : List Line) :
    (lines.map Line.fresh).zipIdx = lines.zipIdx.map (Prod.map Line.fresh id) := by
  rw [List.zipIdx_map]

variable (o sheet addresses) in
theorem map_fresh_recomputed (d : Document) (store : Store) :
    (restoreOrder (runLines o sheet addresses store d.numbered).lines).map Line.fresh =
      d.lines.map Line.fresh := by
  refine eq_of_zipIdx_perm ?_
  rw [zipIdx_map_fresh, zipIdx_map_fresh]
  refine ((zipIdx_recomputed_perm o sheet addresses d store).map _).trans ?_
  rw [map_fresh_runLines]
  exact d.numbered_perm.map _

theorem map_place_of_map_fresh {lines lines' : List Line}
    (h : lines.map Line.fresh = lines'.map Line.fresh) :
    lines.map Line.place = lines'.map Line.place := by
  simpa [List.map_map, Function.comp_def, Line.fresh] using congrArg (List.map Line.place) h

variable (o sheet addresses) in
theorem numbered_recomputed (d : Document) (store store' : Store) :
    Document.numbered { d with
        lines := restoreOrder (runLines o sheet addresses store d.numbered).lines
        store := store' } =
      (runLines o sheet addresses store d.numbered).lines := by
  have hplaces := map_place_of_map_fresh (map_fresh_recomputed o sheet addresses d store)
  have hsnd := map_snd_runLines o sheet addresses store d.numbered
  have hperm := zipIdx_recomputed_perm o sheet addresses d store
  generalize (runLines o sheet addresses store d.numbered).lines = xs at hplaces hsnd hperm ⊢
  rw [Document.numbered]
  dsimp only
  rw [hplaces, ← map_snd_numbered, ← hsnd]
  exact filterMap_map_snd fun x hx => hperm.mem_iff.2 hx

theorem numbered_fresh (d : Document) :
    d.fresh.numbered = d.numbered.map (Prod.map Line.fresh id) := by
  have hplaces : d.fresh.lines.map Line.place = d.lines.map Line.place :=
    map_place_of_map_fresh (by simp [Document.fresh, Line.fresh])
  rw [Document.numbered, Document.numbered, hplaces, List.map_filterMap]
  refine List.filterMap_congr fun i _ => ?_
  simp only [Document.fresh, List.getElem?_map, Option.map_map, Function.comp_def, Prod.map_apply,
    id_eq]

theorem fresh_recompute_document (d : Document) (o : Options) (sheet : Sheet)
    (addresses : AddressReader) : (d.recompute o sheet addresses).1.fresh = d.fresh := by
  rw [recompute_eq]
  simp only [Document.fresh, map_fresh_recomputed]

theorem numbered_recompute (d : Document) (o : Options) (sheet : Sheet) (addresses : AddressReader) :
    (d.recompute o sheet addresses).1.numbered =
      (runLines o sheet addresses .empty d.numbered).lines :=
  numbered_recomputed o sheet addresses d .empty _

theorem ordered_recompute (d : Document) (o : Options) (sheet : Sheet) (addresses : AddressReader) :
    (d.recompute o sheet addresses).1.ordered =
      (runLines o sheet addresses .empty d.numbered).lines.map Prod.fst := by
  rw [Document.ordered, numbered_recompute]

end

end UnitSheet
