import Mathlib.Data.List.Basic
import UnitSheet.Evaluation

set_option autoImplicit false

namespace UnitSheet

section
variable {α : Type}

theorem lookup_cons_eq (entry : String × α) (rest : List (String × α)) (n : String) :
    (entry :: rest).lookup n = if n = entry.1 then some entry.2 else rest.lookup n := by
  rw [List.lookup_cons]
  by_cases h : n = entry.1
  · rw [if_pos h, beq_iff_eq.2 h]
  · rw [if_neg h, beq_eq_false_iff_ne.2 h]

theorem lookup_setEntry (name n : String) (value : α) (entries : List (String × α)) :
    (setEntry name value entries).lookup n =
      if n = name then some value else entries.lookup n := by
  induction entries with
  | nil => rw [setEntry, lookup_cons_eq]
  | cons entry rest ih =>
    rw [setEntry, lookup_cons_eq]
    by_cases hentry : entry.1 = name
    · rw [if_pos hentry, lookup_cons_eq, hentry]
      by_cases h : n = name
      · rw [if_pos h, if_pos h]
      · rw [if_neg h, if_neg h, if_neg h]
    · rw [if_neg hentry, lookup_cons_eq, ih]
      by_cases h : n = entry.1
      · rw [if_pos h, if_pos h, if_neg (h ▸ hentry)]
      · rw [if_neg h, if_neg h]

theorem lookup_eq_none {n : String} {entries : List (String × α)}
    (h : n ∉ entries.map Prod.fst) : entries.lookup n = none := by
  refine List.lookup_eq_none_iff.2 fun entry hentry => ?_
  rw [bne_iff_ne]
  rintro rfl
  exact h (List.mem_map_of_mem hentry)

theorem lookup_of_mem {κ : Type} [BEq κ] [LawfulBEq κ] {entries : List (κ × α)} {a : κ} {b : α}
    (h : (entries.map Prod.fst).Nodup) (hmem : (a, b) ∈ entries) : entries.lookup a = some b := by
  obtain ⟨before, behind, rfl⟩ := List.append_of_mem hmem
  refine List.lookup_eq_some_iff.2 ⟨before, behind, rfl, fun entry hentry => ?_⟩
  rw [List.map_append, List.nodup_append] at h
  have hne := h.2.2 entry.1 (List.mem_map_of_mem hentry) a (by simp)
  simpa using hne.symm

theorem lookup_filter {keep : String × α → Bool} {entries : List (String × α)}
    (h : (entries.map Prod.fst).Nodup) (n : String) :
    (entries.filter keep).lookup n = (entries.lookup n).filter fun value => keep (n, value) := by
  induction entries with
  | nil => rfl
  | cons entry rest ih =>
    obtain ⟨hnew, hrest⟩ := List.nodup_cons.1 h
    have ih := ih hrest
    rw [List.filter_cons, lookup_cons_eq]
    by_cases hn : n = entry.1
    · subst hn
      rw [lookup_eq_none hnew] at ih
      split
      · rename_i hkeep
        rw [lookup_cons_eq, if_pos rfl, if_pos rfl, Option.filter_some, if_pos hkeep]
      · rename_i hkeep
        rw [ih, if_pos rfl, Option.filter_some, if_neg hkeep, Option.filter_none]
    · rw [if_neg hn, ← ih]
      split
      · rw [lookup_cons_eq, if_neg hn]
      · rfl

theorem NameMap.get?_filter (m : NameMap α) (keep : String → α → Bool) (n : String) :
    (m.filter keep).get? n = (m.get? n).filter (keep n) :=
  lookup_filter m.nodup n

theorem NameMap.get?_mapValues {β : Type} (m : NameMap α) (f : α → β) (n : String) :
    (m.mapValues f).get? n = (m.get? n).map f := by
  change (m.entries.map fun e => (e.1, f e.2)).lookup n = (m.entries.lookup n).map f
  induction m.entries with
  | nil => rfl
  | cons entry rest ih =>
    rw [List.map_cons, lookup_cons_eq, lookup_cons_eq, ih]
    split <;> rfl

theorem NameMap.get?_set (m : NameMap α) (name n : String) (value : α) :
    (m.set name value).get? n = if n = name then some value else m.get? n :=
  lookup_setEntry name n value m.entries

theorem NameMap.names_set (m : NameMap α) (name : String) (value : α) :
    (m.set name value).names = if name ∈ m.names then m.names else m.names ++ [name] :=
  map_fst_setEntry name value m.entries

end

theorem NameMap.contains_iff {α : Type} {m : NameMap α} {n : String} :
    m.contains n = true ↔ n ∈ m.names := by
  rw [NameMap.contains, NameMap.get?, NameMap.names, List.lookup_isSome_iff, List.mem_map]
  simp only [beq_iff_eq, eq_comm (a := n)]

theorem Store.value?_define (store : Store) (name n owner : String) (value : Quantity) :
    (store.define name value owner).value? n = if n = name then some value else store.value? n := by
  rw [Store.value?, Store.define, NameMap.get?_set]
  split <;> rfl

theorem evalName_eq_ok_iff {store : Store} {n : String} {q : Quantity} :
    store.evalName n = .ok q ↔ store.value? n = some q ∨
      (store.value? n = none ∧ isUnitName n = true ∧ Quantity.ofUnit 1 (some n) = .ok q) := by
  unfold Store.evalName
  cases store.value? n with
  | some value => simp
  | none => by_cases hn : isUnitName n = true <;> simp [hn]

end UnitSheet
