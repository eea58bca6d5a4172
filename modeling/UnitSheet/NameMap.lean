set_option autoImplicit false

namespace UnitSheet

variable {α : Type}

def setEntry (name : String) (value : α) : List (String × α) → List (String × α)
  | [] => [(name, value)]
  | entry :: rest =>
    if entry.1 = name then (name, value) :: rest else entry :: setEntry name value rest

theorem map_fst_setEntry (name : String) (value : α) (entries : List (String × α)) :
    (setEntry name value entries).map Prod.fst =
      if name ∈ entries.map Prod.fst then entries.map Prod.fst
      else entries.map Prod.fst ++ [name] := by
  induction entries with
  | nil => simp [setEntry]
  | cons entry rest ih =>
    by_cases h : entry.1 = name
    · simp [setEntry, h]
    · have h' : ¬ name = entry.1 := fun e => h e.symm
      simp only [setEntry, h, if_false, List.map_cons, ih, List.mem_cons, h', false_or]
      split <;> simp

theorem setEntry_of_not_mem {name : String} {value : α} {entries : List (String × α)}
    (h : name ∉ entries.map Prod.fst) : setEntry name value entries = entries ++ [(name, value)] := by
  induction entries with
  | nil => rfl
  | cons entry rest ih =>
    rw [List.map_cons, List.mem_cons, not_or] at h
    rw [setEntry, if_neg (Ne.symm h.1), ih h.2, List.cons_append]

theorem nodup_setEntry (name : String) (value : α) {entries : List (String × α)}
    (h : (entries.map Prod.fst).Nodup) : ((setEntry name value entries).map Prod.fst).Nodup := by
  rw [map_fst_setEntry]
  split
  · exact h
  · rename_i hn
    refine List.nodup_append.2 ⟨h, by simp, ?_⟩
    intro a ha b hb hab
    rw [List.mem_singleton.1 hb] at hab
    exact hn (hab ▸ ha)

structure NameMap (α : Type) where
  entries : List (String × α)
  nodup : (entries.map Prod.fst).Nodup

namespace NameMap

def empty : NameMap α := ⟨[], by simp⟩

def names (m : NameMap α) : List String := m.entries.map Prod.fst

def get? (m : NameMap α) (name : String) : Option α := m.entries.lookup name

def contains (m : NameMap α) (name : String) : Bool := (m.get? name).isSome

def set (m : NameMap α) (name : String) (value : α) : NameMap α :=
  ⟨setEntry name value m.entries, nodup_setEntry name value m.nodup⟩

def filter (keep : String → α → Bool) (m : NameMap α) : NameMap α :=
  ⟨m.entries.filter fun e => keep e.1 e.2, m.nodup.sublist (List.filter_sublist.map Prod.fst)⟩

def mapValues {β : Type} (f : α → β) (m : NameMap α) : NameMap β :=
  ⟨m.entries.map fun e => (e.1, f e.2), by simpa [List.map_map, Function.comp_def] using m.nodup⟩

def ofList (pairs : List (String × α)) : NameMap α :=
  pairs.foldl (fun m p => m.set p.1 p.2) empty

theorem entries_foldl_set {m : NameMap α} {pairs : List (String × α)}
    (h : ((m.entries ++ pairs).map Prod.fst).Nodup) :
    (pairs.foldl (fun m p => m.set p.1 p.2) m).entries = m.entries ++ pairs := by
  induction pairs generalizing m with
  | nil => rw [List.foldl_nil, List.append_nil]
  | cons pair rest ih =>
    have hnew : pair.1 ∉ m.entries.map Prod.fst := by
      rw [List.map_append, List.nodup_append] at h
      exact fun hmem => h.2.2 _ hmem _ List.mem_cons_self rfl
    have hset : (m.set pair.1 pair.2).entries = m.entries ++ [pair] := setEntry_of_not_mem hnew
    rw [List.foldl_cons, ih, hset, List.append_assoc]
    · rfl
    · rwa [hset, List.append_assoc]

theorem entries_ofList {pairs : List (String × α)} (h : (pairs.map Prod.fst).Nodup) :
    (ofList pairs).entries = pairs := by
  have hempty : ((empty.entries ++ pairs).map Prod.fst).Nodup := h
  exact entries_foldl_set hempty

end NameMap

end UnitSheet
