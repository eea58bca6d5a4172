import Mathlib.Data.List.Induction
import UnitSheet.Proofs.Store

set_option autoImplicit false

namespace UnitSheet

namespace Store

inductive Operation
  | define (name : String) (value : Quantity) (owner : String)
  | clearOwner (owner : String)
  | clear

namespace Operation

def apply (op : Operation) (s : Store) : Store :=
  match op with
  | define name value owner => s.define name value owner
  | clearOwner owner => (s.takeOwned owner).2
  | clear => .empty

def definedName? : Operation → Option String
  | define name _ _ => some name
  | _ => none

structure Spares (op : Operation) (name owner : String) : Prop where
  definedName_ne : op.definedName? ≠ some name
  ne_clearOwner : op ≠ clearOwner owner
  ne_clear : op ≠ clear

end Operation

def after (history : List Operation) : Store := history.foldl (fun s op => op.apply s) .empty

/-- The last definition of a name gives it this value and this owner, and neither the owner nor the
store has been cleared since. -/
def Stands (history : List Operation) (name : String) (value : Quantity) (owner : String) : Prop :=
  ∃ before behind, history = before ++ .define name value owner :: behind ∧
    ∀ op ∈ behind, op.Spares name owner

def IsPresent (history : List Operation) (name : String) : Prop :=
  ∃ value owner, Stands history name value owner

/-- The operation at an index makes a name present, and the name has been present ever since. -/
structure EntersAt (history : List Operation) (name : String) (i : Nat) : Prop where
  isDefinition : ∃ value owner, history[i]? = some (.define name value owner)
  absent : ¬ IsPresent (history.take i) name
  present : ∀ j, i < j → j ≤ history.length → IsPresent (history.take j) name

section
variable {s : Store} {op : Operation} {history : List Operation} {name owner : String}
  {value : Quantity} {i j : Nat}

theorem spares_define {n k : String} {v : Quantity} :
    (Operation.define n v k).Spares name owner ↔ n ≠ name := by
  refine ⟨fun h hn => h.definedName_ne (congrArg some hn), fun h => ⟨fun hn => ?_, nofun, nofun⟩⟩
  exact h (Option.some.inj hn)

theorem spares_clearOwner {k : String} :
    (Operation.clearOwner k).Spares name owner ↔ k ≠ owner := by
  refine ⟨fun h hk => h.ne_clearOwner (congrArg _ hk), fun h => ⟨nofun, fun hk => ?_, nofun⟩⟩
  exact h (Operation.clearOwner.inj hk)

/-- An operation gives a name an entry, or it spares the one that the name has. -/
theorem get?_apply_eq_some_iff : (op.apply s).get? name = some ⟨value, owner⟩ ↔
    op = .define name value owner ∨ op.Spares name owner ∧ s.get? name = some ⟨value, owner⟩ := by
  cases op with
  | define n v k =>
    rw [Operation.apply, Store.define, NameMap.get?_set, spares_define, Operation.define.injEq]
    by_cases hn : name = n
    · rw [if_pos hn, Option.some.injEq, Owned.mk.injEq]
      simp [hn]
    · rw [if_neg hn]
      simp [Ne.symm hn]
  | clearOwner k =>
    rw [Operation.apply, takeOwned, clearOwner, NameMap.get?_filter, Option.filter_eq_some_iff,
      spares_clearOwner, bne_iff_ne, and_comm]
    simp [eq_comm]
  | clear =>
    rw [Operation.apply]
    constructor
    · intro h
      cases h
    · rintro (h | ⟨h, -⟩)
      · cases h
      · exact absurd rfl h.ne_clear

/-- An operation puts a new name behind all others, or it only takes names out. -/
theorem names_apply (op : Operation) (s : Store) : (op.apply s).names.Sublist s.names ∨
    ∃ name value owner, op = .define name value owner ∧ name ∉ s.names ∧
      (op.apply s).names = s.names ++ [name] := by
  cases op with
  | define name value owner =>
    have hnames : (s.define name value owner).names =
        if name ∈ s.names then s.names else s.names ++ [name] := NameMap.names_set s name _
    by_cases hname : name ∈ s.names
    · refine .inl ?_
      rw [Operation.apply, hnames, if_pos hname]
    · exact .inr ⟨name, value, owner, rfl, hname, hnames.trans (if_neg hname)⟩
  | clearOwner owner => exact .inl (List.filter_sublist.map Prod.fst)
  | clear => exact .inl (List.nil_sublist _)

theorem after_concat (history : List Operation) (op : Operation) :
    after (history ++ [op]) = op.apply (after history) := by
  rw [after, List.foldl_append]
  rfl

theorem not_stands_nil : ¬ Stands [] name value owner := by
  rintro ⟨before, behind, h, -⟩
  simp at h

theorem stands_concat : Stands (history ++ [op]) name value owner ↔
    op = .define name value owner ∨ op.Spares name owner ∧ Stands history name value owner := by
  constructor
  · rintro ⟨before, behind, h, hbehind⟩
    rcases List.eq_nil_or_concat' behind with rfl | ⟨between, last, rfl⟩
    · exact .inl (List.append_singleton_inj.1 h).2
    · rw [← List.cons_append, ← List.append_assoc, List.append_singleton_inj] at h
      obtain ⟨rfl, rfl⟩ := h
      exact .inr ⟨hbehind op (by simp), before, between, rfl,
        fun op hop => hbehind op (List.mem_append_left _ hop)⟩
  · rintro (rfl | ⟨hop, before, behind, rfl, hbehind⟩)
    · exact ⟨history, [], rfl, by simp⟩
    · refine ⟨before, behind ++ [op], by simp, fun op' hop' => ?_⟩
      rcases List.mem_append.1 hop' with hop' | hop'
      · exact hbehind op' hop'
      · exact List.mem_singleton.1 hop' ▸ hop

/-- A name has the value and the owner of the definition that stands. -/
theorem get?_after : (after history).get? name = some ⟨value, owner⟩ ↔
    Stands history name value owner := by
  induction history using List.reverseRecOn with
  | nil => exact iff_of_false nofun not_stands_nil
  | append_singleton history op ih =>
    rw [after_concat, get?_apply_eq_some_iff, stands_concat, ih]

theorem mem_names_after : name ∈ (after history).names ↔ IsPresent history name := by
  rw [← NameMap.contains_iff, NameMap.contains, Option.isSome_iff_exists]
  constructor
  · rintro ⟨⟨value, owner⟩, h⟩
    exact ⟨value, owner, get?_after.1 h⟩
  · rintro ⟨value, owner, h⟩
    exact ⟨⟨value, owner⟩, get?_after.2 h⟩

theorem EntersAt.lt_length (h : EntersAt history name i) : i < history.length := by
  obtain ⟨_, _, hop⟩ := h.isDefinition
  exact (List.getElem?_eq_some_iff.1 hop).1

theorem EntersAt.unique (hi : EntersAt history name i) (hj : EntersAt history name j) : i = j := by
  rcases Nat.lt_trichotomy i j with hlt | rfl | hlt
  · exact absurd (hi.present j hlt (Nat.le_of_lt hj.lt_length)) hj.absent
  · rfl
  · exact absurd (hj.present i hlt (Nat.le_of_lt hi.lt_length)) hi.absent

theorem entersAt_concat_length (habsent : ¬ IsPresent history name) :
    EntersAt (history ++ [.define name value owner]) name history.length := by
  refine ⟨⟨value, owner, by simp⟩, by rwa [List.take_left], fun j hlt hle => ?_⟩
  have hj : j = (history ++ [Operation.define name value owner]).length := by
    rw [List.length_append, List.length_singleton] at hle ⊢
    omega
  rw [hj, List.take_length]
  exact ⟨value, owner, stands_concat.2 (.inl rfl)⟩

theorem EntersAt.concat (h : EntersAt history name i) (hpresent : IsPresent (history ++ [op]) name) :
    EntersAt (history ++ [op]) name i := by
  obtain ⟨value, owner, hop⟩ := h.isDefinition
  refine ⟨⟨value, owner, ?_⟩, ?_, fun j hlt hle => ?_⟩
  · rwa [List.getElem?_append_left h.lt_length]
  · rw [List.take_append_of_le_length (Nat.le_of_lt h.lt_length)]
    exact h.absent
  · rcases Nat.lt_or_ge history.length j with hj | hj
    · rwa [List.take_of_length_le (by rwa [List.length_append])]
    · rw [List.take_append_of_le_length hj]
      exact h.present j hlt hj

theorem EntersAt.of_concat (h : EntersAt (history ++ [op]) name i) (hpresent : IsPresent history name) :
    EntersAt history name i := by
  have hlt : i < history.length := by
    have hi := h.lt_length
    rw [List.length_append, List.length_singleton] at hi
    refine Nat.lt_of_le_of_ne (Nat.le_of_lt_succ hi) ?_
    rintro rfl
    exact h.absent (by rwa [List.take_left])
  obtain ⟨value, owner, hop⟩ := h.isDefinition
  refine ⟨⟨value, owner, ?_⟩, ?_, fun j hij hj => ?_⟩
  · rwa [List.getElem?_append_left hlt] at hop
  · have habsent := h.absent
    rwa [List.take_append_of_le_length (Nat.le_of_lt hlt)] at habsent
  · have hpresent := h.present j hij (by simpa using Nat.le_succ_of_le hj)
    rwa [List.take_append_of_le_length hj] at hpresent

theorem exists_entersAt (h : IsPresent history name) : ∃ i, EntersAt history name i := by
  induction history using List.reverseRecOn with
  | nil =>
    obtain ⟨value, owner, h⟩ := h
    exact absurd h not_stands_nil
  | append_singleton history op ih =>
    by_cases hbefore : IsPresent history name
    · obtain ⟨i, hi⟩ := ih hbefore
      exact ⟨i, hi.concat h⟩
    · obtain ⟨value, owner, h⟩ := h
      rcases stands_concat.1 h with rfl | ⟨-, h⟩
      · exact ⟨history.length, entersAt_concat_length hbefore⟩
      · exact absurd ⟨value, owner, h⟩ hbefore

/-- The names are listed in the order in which they have entered. -/
theorem pairwise_names_after (history : List Operation) :
    (after history).names.Pairwise fun first second =>
      ∀ i j, EntersAt history first i → EntersAt history second j → i < j := by
  induction history using List.reverseRecOn with
  | nil => exact List.Pairwise.nil
  | append_singleton history op ih =>
    have hkept : (after history).names.Pairwise fun first second =>
        ∀ i j, EntersAt (history ++ [op]) first i → EntersAt (history ++ [op]) second j → i < j :=
      ih.imp_of_mem fun hfirst hsecond hlt i j hi hj =>
        hlt i j (hi.of_concat (mem_names_after.1 hfirst)) (hj.of_concat (mem_names_after.1 hsecond))
    rw [after_concat]
    rcases names_apply op (after history) with hsublist | ⟨name, value, owner, rfl, hnew, hnames⟩
    · exact hkept.sublist hsublist
    · rw [hnames, List.pairwise_append]
      refine ⟨hkept, List.pairwise_singleton _ _, fun first hfirst second hsecond i j hi hj => ?_⟩
      -- The new name enters with the last operation, and the others before it.
      obtain rfl := List.mem_singleton.1 hsecond
      obtain rfl := hj.unique (entersAt_concat_length (mt mem_names_after.2 hnew))
      exact (hi.of_concat (mem_names_after.1 hfirst)).lt_length

theorem get?_of_mem {e : String × Owned} (h : e ∈ s.entries) : s.get? e.1 = some e.2 :=
  lookup_of_mem s.nodup h

theorem ownedBy_eq_filter (s : Store) (owner : String) :
    s.ownedBy owner = s.names.filter fun name => s.owner? name == some owner := by
  rw [NameMap.names, List.filter_map, ownedBy]
  refine congrArg _ (List.filter_congr fun e he => ?_)
  rw [Function.comp_apply, owner?, get?_of_mem he]
  rfl

theorem notOwnedBy_eq_filter (s : Store) (owner : String) :
    s.notOwnedBy owner = s.names.filter fun name => s.owner? name != some owner := by
  rw [NameMap.names, List.filter_map, notOwnedBy]
  refine congrArg _ (List.filter_congr fun e he => ?_)
  rw [Function.comp_apply, owner?, get?_of_mem he]
  rfl

theorem get?_takeOwned {n : String} (h : n ∈ s.notOwnedBy owner) :
    (s.takeOwned owner).2.get? n = s.get? n := by
  obtain ⟨e, he, rfl⟩ := List.mem_map.1 h
  obtain ⟨he, howner⟩ := List.mem_filter.1 he
  rw [takeOwned, clearOwner, NameMap.get?_filter, get?_of_mem he, Option.filter_some, if_pos howner]

end

/-- Behind every history, a name is present if and only if a definition of it stands, and it has the
value and the owner of this definition. Each name is listed once, at the place where it has entered.
An owner splits the names, in their order, into its own and the others, and clearing it gives back
and takes out its own ones and leaves the others as they are. -/
theorem names_of_history (history : List Operation) :
    (∀ name, (after history).contains name = true ↔
      ∃ value owner, Stands history name value owner) ∧
    (∀ name value owner, Stands history name value owner →
      (after history).value? name = some value ∧ (after history).owner? name = some owner) ∧
    (after history).names.Nodup ∧
    (∀ name ∈ (after history).names, ∃! i, EntersAt history name i) ∧
    ((after history).names.Pairwise fun first second =>
      ∀ i j, EntersAt history first i → EntersAt history second j → i < j) ∧
    ∀ key,
      (after history).ownedBy key =
        (after history).names.filter (fun name => (after history).owner? name == some key) ∧
      (after history).notOwnedBy key =
        (after history).names.filter (fun name => (after history).owner? name != some key) ∧
      ((after history).takeOwned key).1 = (after history).ownedBy key ∧
      ((after history).takeOwned key).2.names = (after history).notOwnedBy key ∧
      ∀ name ∈ (after history).notOwnedBy key,
        ((after history).takeOwned key).2.get? name = (after history).get? name := by
  refine ⟨fun name => NameMap.contains_iff.trans mem_names_after, fun name value owner h => ?_,
    (after history).nodup, fun name hname => ?_, pairwise_names_after history, fun key =>
      ⟨ownedBy_eq_filter _ key, notOwnedBy_eq_filter _ key, rfl, rfl, fun name => get?_takeOwned⟩⟩
  · have hentry := get?_after.2 h
    exact ⟨congrArg (Option.map Owned.value) hentry, congrArg (Option.map Owned.owner) hentry⟩
  · obtain ⟨i, hi⟩ := exists_entersAt (mem_names_after.1 hname)
    exact ⟨i, hi, fun j hj => hj.unique hi⟩

end Store

end UnitSheet
