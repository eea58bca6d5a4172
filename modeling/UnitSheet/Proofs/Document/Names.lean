import Mathlib.Data.List.Induction
import UnitSheet.Proofs.Document.Faults
import UnitSheet.Proofs.Store

set_option autoImplicit false

namespace UnitSheet

theorem Document.mem_ordered_iff {d : Document} {l : Line} : l ∈ d.ordered ↔ l ∈ d.lines :=
  (ordered_perm d).mem_iff

def Line.definedName? (l : Line) : Option String := l.definition?.map Prod.fst

/-- The line gives the name to its result, and no line behind it gives it to another one. -/
def IsLastDefinition (lines : List Line) (n : String) (l : Line) (value : Quantity) : Prop :=
  ∃ before behind, lines = before ++ l :: behind ∧ l.definition? = some (n, value) ∧
    ∀ l' ∈ behind, l'.definedName? ≠ some n

section
variable {lines : List Line} {n : String} {l l' : Line} {value : Quantity} {owned : Owned}

theorem definedName?_of_definition? (h : l.definition? = some (n, value)) :
    l.definedName? = some n := by
  rw [Line.definedName?, h]
  rfl

theorem not_isLastDefinition_nil : ¬ IsLastDefinition [] n l value := by
  rintro ⟨before, behind, hlines, -⟩
  simp at hlines

theorem isLastDefinition_concat : IsLastDefinition (lines ++ [l]) n l' value ↔
    (l' = l ∧ l.definition? = some (n, value)) ∨
      (l.definedName? ≠ some n ∧ IsLastDefinition lines n l' value) := by
  constructor
  · rintro ⟨before, behind, hlines, hdefines, hbehind⟩
    rcases List.eq_nil_or_concat behind with rfl | ⟨more, last, rfl⟩
    · obtain ⟨-, rfl⟩ := List.append_inj' hlines rfl |>.imp id List.singleton_inj.1
      exact .inl ⟨rfl, hdefines⟩
    · rw [List.concat_eq_append, ← List.cons_append, ← List.append_assoc] at hlines
      obtain ⟨hfront, hlast⟩ := List.append_inj' hlines rfl
      obtain rfl := List.singleton_inj.1 hlast
      refine .inr ⟨hbehind _ (by simp), before, more, hfront, hdefines, fun l'' hl'' => ?_⟩
      exact hbehind l'' (by simp [hl''])
  · rintro (⟨rfl, hdefines⟩ | ⟨hother, before, behind, rfl, hdefines, hbehind⟩)
    · exact ⟨lines, [], rfl, hdefines, fun l'' hl'' => absurd hl'' List.not_mem_nil⟩
    · refine ⟨before, behind ++ [l], by simp, hdefines, fun l'' hl'' => ?_⟩
      rcases List.mem_append.1 hl'' with hl'' | hl''
      · exact hbehind l'' hl''
      · exact List.mem_singleton.1 hl'' ▸ hother

/-- A name that lines define has the value and the owner of the last one that does, and every other
name has what it had. -/
theorem get?_foldl_enter_from (store : Store) (lines : List Line) (n : String) (owned : Owned) :
    NameMap.get? (lines.foldl Store.enter store) n = some owned ↔
      (∃ l, IsLastDefinition lines n l owned.value ∧ l.id = owned.owner) ∨
        n ∉ lines.filterMap Line.definedName? ∧ store.get? n = some owned := by
  induction lines using List.reverseRecOn with
  | nil => simp [not_isLastDefinition_nil]
  | append_singleton lines l ih =>
    simp only [List.foldl_append, List.foldl_cons, List.foldl_nil, isLastDefinition_concat,
      List.filterMap_append, List.mem_append, not_or]
    rw [Store.enter]
    cases hl : l.definition? with
    | none => simp [ih, Line.definedName?, hl]
    | some found =>
      obtain ⟨name, value⟩ := found
      dsimp only
      rw [Store.define, NameMap.get?_set]
      by_cases hn : n = name
      · subst hn
        obtain ⟨value', owner⟩ := owned
        simp [Line.definedName?, hl]
      · have hn' : name ≠ n := Ne.symm hn
        simp [hn, hn', ih, Line.definedName?, hl]

theorem get?_foldl_enter (lines : List Line) (n : String) (owned : Owned) :
    NameMap.get? (lines.foldl Store.enter .empty) n = some owned ↔
      ∃ l, IsLastDefinition lines n l owned.value ∧ l.id = owned.owner := by
  have hnone : NameMap.get? (.empty : Store) n = none := rfl
  simp [get?_foldl_enter_from, hnone]

theorem firstOccurrences_concat {α : Type} [DecidableEq α] (xs : List α) (x : α) :
    firstOccurrences (xs ++ [x]) =
      if x ∈ firstOccurrences xs then firstOccurrences xs else firstOccurrences xs ++ [x] := by
  rw [firstOccurrences, List.foldl_append]
  rfl

theorem mem_firstOccurrences {α : Type} [DecidableEq α] {xs : List α} {x : α} :
    x ∈ firstOccurrences xs ↔ x ∈ xs := by
  induction xs using List.reverseRecOn with
  | nil => rfl
  | append_singleton xs y ih =>
    rw [firstOccurrences_concat]
    split
    · rename_i hy
      rw [ih, List.mem_append, List.mem_singleton]
      refine ⟨.inl, fun h => h.elim id fun hxy => ?_⟩
      rw [hxy] at ih ⊢
      exact ih.1 hy
    · rw [List.mem_append, List.mem_append, ih]

/-- Names stand where they are entered first. -/
theorem names_foldl_enter (lines : List Line) :
    NameMap.names (lines.foldl Store.enter .empty) =
      firstOccurrences (lines.filterMap Line.definedName?) := by
  induction lines using List.reverseRecOn with
  | nil => rfl
  | append_singleton lines l ih =>
    rw [List.foldl_append, List.filterMap_append, List.foldl_cons, List.foldl_nil, Store.enter]
    cases hl : l.definition? with
    | none => simp [Line.definedName?, hl, ih]
    | some found =>
      have hname : [l].filterMap Line.definedName? = [found.1] := by
        simp [Line.definedName?, hl]
      rw [hname, firstOccurrences_concat]
      dsimp only
      rw [Store.define, NameMap.names_set, ih]

end

/-- A line has its turn with the names that the turns before it have left. -/
theorem store_of_turns {Place : Type} {o : Options} {sheet : Sheet} {addresses : AddressReader}
    {store : Store} {lines : List (Line × Place)} {before behind : List (Line × Scope)} {l : Line}
    {s : Scope} (h : turns o sheet addresses store lines = before ++ (l, s) :: behind) :
    s.store =
      before.foldl (fun store t => store.enter (t.1.recompute o t.2).line) store := by
  induction before generalizing store lines with
  | nil =>
    cases lines with
    | nil => cases h
    | cons entry rest =>
      obtain ⟨-, rfl⟩ := Prod.mk.inj (List.cons.inj h).1
      rfl
  | cons t before ih =>
    cases lines with
    | nil => cases h
    | cons entry rest =>
      obtain ⟨first, place⟩ := entry
      rw [turns_cons] at h
      obtain ⟨rfl, hrest⟩ := List.cons.inj h
      have hstore := store_recompute o ⟨store, sheet, addresses⟩ first
      dsimp only [List.foldl_cons] at hstore ⊢
      rw [← hstore]
      generalize first.recompute o ⟨store, sheet, addresses⟩ = turn at hrest ⊢
      unfold Turn.followedBy at hrest
      split at hrest
      · exact absurd hrest.symm (by simp)
      · exact ih hrest

/-- Behind a pass that comes to its end, the names are those of the lines with a result: each has the
value and the owner of the last line in reading order that defines it, and the names stand in the
order in which they are defined first. In its turn, a line finds the names that are last defined
before it. -/
theorem names_of_recompute {d after : Document} {o : Options} {sheet : Sheet}
    {addresses : AddressReader} (h : d.recompute o sheet addresses = (after, none)) :
    (∀ n, after.store.contains n = true ↔ ∃ l ∈ after.lines, l.definedName? = some n) ∧
    (∀ n owned, after.store.get? n = some owned ↔
      ∃ l, IsLastDefinition after.ordered n l owned.value ∧ l.id = owned.owner) ∧
    after.store.names.Nodup ∧
    after.store.names = firstOccurrences (after.ordered.filterMap Line.definedName?) ∧
    after.ordered = (d.turns o sheet addresses).map (fun t => (t.1.recompute o t.2).line) ∧
    ∀ k l s, (d.turns o sheet addresses)[k]? = some (l, s) → ∀ n value,
      s.store.value? n = some value ↔ ∃ l', IsLastDefinition (after.ordered.take k) n l' value := by
  have hpass : (runLines o sheet addresses .empty d.numbered).fault = none :=
    congrArg Prod.snd h
  obtain rfl : (d.recompute o sheet addresses).1 = after := congrArg Prod.fst h
  have hordered := ordered_recompute d o sheet addresses
  have hstore : (d.recompute o sheet addresses).1.store =
      (d.recompute o sheet addresses).1.ordered.foldl Store.enter .empty := by
    rw [hordered]
    exact store_runLines hpass
  have hnames := names_foldl_enter (d.recompute o sheet addresses).1.ordered
  have hlines : (d.recompute o sheet addresses).1.ordered =
      (d.turns o sheet addresses).map fun t => (t.1.recompute o t.2).line := by
    simp only [line_recompute]
    rw [hordered]
    exact (lines_runLines_of_none hpass).2
  refine ⟨fun n => ?_, fun n owned => ?_, NameMap.nodup _, ?_, hlines,
    fun k l s hturn n value => ?_⟩
  · rw [NameMap.contains_iff, hstore, hnames, mem_firstOccurrences, List.mem_filterMap]
    simp only [Document.mem_ordered_iff]
  · rw [hstore]
    exact get?_foldl_enter _ n owned
  · rw [hstore, hnames]
  · have hturns : d.turns o sheet addresses = (d.turns o sheet addresses).take k ++
        (l, s) :: (d.turns o sheet addresses).drop (k + 1) := by
      obtain ⟨hk, hget⟩ := List.getElem?_eq_some_iff.1 hturn
      rw [← hget, List.cons_getElem_drop_succ, List.take_append_drop]
    have hbefore : s.store =
        ((d.recompute o sheet addresses).1.ordered.take k).foldl Store.enter .empty := by
      rw [store_of_turns hturns, hlines, ← List.map_take, List.foldl_map]
    rw [Store.value?, hbefore, Option.map_eq_some_iff]
    constructor
    · rintro ⟨owned, howned, rfl⟩
      obtain ⟨l', hl', -⟩ := (get?_foldl_enter _ n owned).1 howned
      exact ⟨l', hl'⟩
    · rintro ⟨l', hl'⟩
      exact ⟨⟨value, l'.id⟩, (get?_foldl_enter _ n _).2 ⟨l', hl', rfl⟩, rfl⟩

def redefinedDocument : Document :=
  ⟨[{ id := "1", text := "a = 2 ft" }, { id := "2", text := "a = 5 ft + 12 in" },
    { id := "3", text := "a = 1 ft" }], .pad, .empty⟩

theorem names_of_recompute_redefinedDocument : ∃ after l value,
    redefinedDocument.recompute {} .empty .none = (after, none) ∧
      IsLastDefinition after.ordered "a" l value ∧ l.id = "3" := by
  have hend : ((redefinedDocument.recompute {} .empty .none).2,
      (redefinedDocument.recompute {} .empty .none).1.store.owner? "a") = (none, some "3") := by
    decide +kernel
  rcases h : redefinedDocument.recompute {} .empty .none with ⟨after, fault⟩
  rw [h] at hend
  obtain ⟨rfl, howner⟩ := Prod.mk.inj hend
  obtain ⟨owned, howned, hid⟩ := Option.map_eq_some_iff.1 howner
  obtain ⟨l, hl, hl'⟩ := ((names_of_recompute h).2.1 "a" owned).1 howned
  exact ⟨after, l, owned.value, rfl, hl, hl'.trans hid⟩

end UnitSheet
