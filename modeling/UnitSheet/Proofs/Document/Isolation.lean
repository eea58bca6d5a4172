import UnitSheet.Proofs.Document.Pass

set_option autoImplicit false

namespace UnitSheet

def Line.erased (l : Line) : Line := { l with text := "" }

namespace Document

def eraseText (d : Document) (i : Nat) : Document := { d with lines := d.lines.modify i Line.erased }

/-- The lines, the names and the fault of a recomputation with the document's own names, or with
given ones. -/
def recomputed (d : Document) (given : Option Store) (o : Options) (sheet : Sheet)
    (addresses : AddressReader) : List Line × Store × Option Fault :=
  match given with
  | none =>
    let (done, fault) := d.recompute o sheet addresses
    (done.lines, done.store, fault)
  | some store =>
    let (done, names, fault) := d.recomputeWith o sheet addresses store
    (done.lines, names, fault)

def startNames (d : Document) : Option Store → Store
  | none => .empty
  | some store => d.lines.foldl (fun s l => s.clearOwner l.id) store

theorem recomputed_eq (d : Document) (given : Option Store) (o : Options) (sheet : Sheet)
    (addresses : AddressReader) :
    d.recomputed given o sheet addresses =
      (restoreOrder (runLines o sheet addresses (d.startNames given) d.numbered).lines,
        (runLines o sheet addresses (d.startNames given) d.numbered).store,
        (runLines o sheet addresses (d.startNames given) d.numbered).fault) := by
  cases given <;> rfl

theorem fault_recomputed (d : Document) (given : Option Store) (o : Options) (sheet : Sheet)
    (addresses : AddressReader) :
    (d.recomputed given o sheet addresses).2.2 =
      (runLines o sheet addresses (d.startNames given) d.numbered).fault := by
  rw [recomputed_eq]

end Document

def changeAt (i : Nat) (f : Line → Line) (entry : Line × Nat) : Line × Nat :=
  if entry.2 = i then (f entry.1, entry.2) else entry

theorem zipIdx_modify (i : Nat) (f : Line → Line) (lines : List Line) :
    (lines.modify i f).zipIdx = lines.zipIdx.map (changeAt i f) := by
  refine List.ext_getElem? fun j => ?_
  rw [List.getElem?_map, List.getElem?_zipIdx, List.getElem?_zipIdx, List.getElem?_modify]
  cases lines[j]? with
  | none => rfl
  | some l => by_cases h : j = i <;> simp [changeAt, h, Ne.symm]

theorem map_modify {α : Type} {f : Line → Line} {g : Line → α} (h : ∀ l, g (f l) = g l) (i : Nat)
    (lines : List Line) : (lines.modify i f).map g = lines.map g := by
  refine List.ext_getElem? fun j => ?_
  rw [List.getElem?_map, List.getElem?_map, List.getElem?_modify]
  cases lines[j]? with
  | none => rfl
  | some l => by_cases hj : i = j <;> simp [hj, h]

theorem numbered_eraseText (d : Document) (i : Nat) :
    (d.eraseText i).numbered = d.numbered.map (changeAt i Line.erased) := by
  have hplaces : (d.eraseText i).lines.map Line.place = d.lines.map Line.place :=
    map_modify (f := Line.erased) (fun _ => rfl) i d.lines
  rw [Document.numbered, Document.numbered, hplaces, List.map_filterMap]
  refine List.filterMap_congr fun j _ => ?_
  simp only [Document.eraseText, List.getElem?_modify]
  cases d.lines[j]? with
  | none => rfl
  | some l => by_cases h : j = i <;> simp [changeAt, h, Ne.symm]

theorem startNames_eraseText (d : Document) (i : Nat) (given : Option Store) :
    (d.eraseText i).startNames given = d.startNames given := by
  cases given with
  | none => rfl
  | some store =>
    have hids : (d.eraseText i).lines.map Line.id = d.lines.map Line.id :=
      map_modify (f := Line.erased) (fun _ => rfl) i d.lines
    have hfold : ∀ lines : List Line, lines.foldl (fun s l => s.clearOwner l.id) store =
        (lines.map Line.id).foldl Store.clearOwner store := fun _ => List.foldl_map.symm
    rw [Document.startNames, Document.startNames, hfold, hfold, hids]

theorem restoreOrder_changeAt {xs : List (Line × Nat)} (i : Nat) (f : Line → Line)
    (h : (restoreOrder xs).zipIdx.Perm xs) :
    restoreOrder (xs.map (changeAt i f)) = (restoreOrder xs).modify i f := by
  refine restoreOrder_of_perm ?_
  rw [zipIdx_modify]
  exact (h.map _).symm

section

variable {o : Options} {s : Scope} {sheet : Sheet} {addresses : AddressReader} {store : Store}

theorem recompute_erased (o : Options) (s : Scope) (l : Line) :
    l.erased.recompute o s = ⟨l.erased.settled .blank, s.store, none⟩ := by
  have hkind : lineKind (normalize l.erased.text) = .text := by
    have hempty : lineKind (normalize "") = .text := by decide +kernel
    exact hempty
  rcases turn_cases o s l.erased with ⟨-, h⟩ | ⟨hnot, -⟩
  · exact h
  · exact absurd hkind hnot

theorem store_recompute_of_failed {l : Line}
    (h : (l.recompute o s).line.outcome.error?.isSome) : (l.recompute o s).store = s.store := by
  rw [store_recompute]
  refine enter_of_result ?_
  cases houtcome : (l.recompute o s).line.outcome with
  | value result shown =>
    rw [houtcome] at h
    cases h
  | blank => rfl
  | failed e => rfl

theorem settled_erased_of_fresh {l l' : Line} (h : l'.fresh = l.fresh) (outcome : Outcome) :
    l'.erased.settled outcome = l.erased.settled outcome := by
  obtain ⟨hid, -, hplace⟩ : l'.id = l.id ∧ l'.text = l.text ∧ l'.place = l.place := by
    simpa [Line.fresh] using h
  simp only [Line.settled, Line.erased, hid, hplace]

/-- A pass in which the lines with an index fail, and the pass in which they are erased. -/
theorem runLines_changeAt {i : Nat} {lines : List (Line × Nat)}
    (hreturns : (runLines o sheet addresses store lines).fault = none)
    (hfailed : ∀ l, (l, i) ∈ (runLines o sheet addresses store lines).lines →
      l.outcome.error?.isSome) :
    runLines o sheet addresses store (lines.map (changeAt i Line.erased)) =
      ⟨(runLines o sheet addresses store lines).lines.map
          (changeAt i fun l => l.erased.settled .blank),
        (runLines o sheet addresses store lines).store, none⟩ := by
  induction lines generalizing store with
  | nil => rfl
  | cons entry rest ih =>
    obtain ⟨l, j⟩ := entry
    rw [runLines_cons] at hreturns hfailed ⊢
    have hfresh := fresh_recompute o ⟨store, sheet, addresses⟩ l
    have hstore := store_recompute_of_failed (o := o) (s := ⟨store, sheet, addresses⟩) (l := l)
    cases hturn : (l.recompute o ⟨store, sheet, addresses⟩).fault with
    | some fault =>
      rw [andThen_of_fault hturn] at hreturns
      cases hreturns
    | none =>
      rw [andThen_of_none hturn] at hreturns hfailed ⊢
      have hrest := ih hreturns fun l' hl' => hfailed l' (List.mem_cons_of_mem _ hl')
      by_cases hj : j = i
      · -- The erased line has another text, but it finds and leaves the same names.
        subst hj
        have hsame := hstore (hfailed _ List.mem_cons_self)
        rw [hsame] at hrest ⊢
        rw [List.map_cons, changeAt, if_pos rfl, runLines_cons, recompute_erased,
          andThen_of_none rfl, hrest, List.map_cons, changeAt, if_pos rfl,
          settled_erased_of_fresh hfresh]
      · rw [List.map_cons, changeAt, if_neg hj, runLines_cons, andThen_of_none hturn, hrest,
          List.map_cons, changeAt, if_neg hj]

end

theorem mem_runLines_of_getElem? {o : Options} {sheet : Sheet} {addresses : AddressReader}
    {d : Document} {store : Store} {i : Nat} {l : Line} :
    (restoreOrder (runLines o sheet addresses store d.numbered).lines)[i]? = some l ↔
      (l, i) ∈ (runLines o sheet addresses store d.numbered).lines := by
  rw [← (zipIdx_recomputed_perm o sheet addresses d store).mem_iff, List.mem_zipIdx_iff_getElem?]

theorem startNames_fresh (d : Document) (given : Option Store) :
    d.fresh.startNames given = d.startNames given := by
  cases given with
  | none => rfl
  | some store =>
    rw [Document.startNames, Document.startNames, Document.fresh, List.foldl_map]
    rfl

/-- What earlier passes have left on the lines does not matter. -/
theorem recomputed_of_fresh {d d' : Document} {given : Option Store} {o : Options} {sheet : Sheet}
    {addresses : AddressReader} (h : d'.fresh = d.fresh)
    (hreturns : (d.recomputed given o sheet addresses).2.2 = none) :
    d'.recomputed given o sheet addresses = d.recomputed given o sheet addresses := by
  rw [Document.recomputed_eq] at hreturns
  have hnames : d'.startNames given = d.startNames given := by
    rw [← startNames_fresh d', ← startNames_fresh d, h]
  have hlines : d'.numbered.map (Prod.map Line.fresh id) = d.numbered.map (Prod.map Line.fresh id) := by
    rw [← numbered_fresh, ← numbered_fresh, h]
  rw [Document.recomputed_eq, Document.recomputed_eq, hnames, runLines_of_map_fresh hlines hreturns]

/-- If a recomputation comes to an end and leaves an error on a line, then it comes to an end as
well when the text of that line is erased, whatever is left on the lines by then: the other lines
come out the same, and so do the names and their order. -/
theorem recomputed_eraseText (d d' : Document) (given : Option Store) (o : Options) (sheet : Sheet)
    (addresses : AddressReader) {i : Nat} {l : Line}
    (hreturns : (d.recomputed given o sheet addresses).2.2 = none)
    (hl : (d.recomputed given o sheet addresses).1[i]? = some l)
    (hfailed : l.outcome.error?.isSome)
    (herased : d'.fresh = (d.eraseText i).fresh) :
    (d'.recomputed given o sheet addresses).2.2 = none ∧
    (∀ j, j ≠ i → (d'.recomputed given o sheet addresses).1[j]? =
      (d.recomputed given o sheet addresses).1[j]?) ∧
    (d'.recomputed given o sheet addresses).2.1 = (d.recomputed given o sheet addresses).2.1 := by
  suffices h : (d.eraseText i).recomputed given o sheet addresses =
      ((d.recomputed given o sheet addresses).1.modify i fun l => l.erased.settled .blank,
        (d.recomputed given o sheet addresses).2.1, none) by
    rw [recomputed_of_fresh herased (by rw [h]), h]
    refine ⟨rfl, fun j hj => ?_, rfl⟩
    rw [List.getElem?_modify]
    simp [hj.symm]
  rw [Document.recomputed_eq] at hreturns hl
  rw [Document.recomputed_eq, Document.recomputed_eq, numbered_eraseText, startNames_eraseText]
  dsimp only at hreturns hl ⊢
  have hall : ∀ l', (l', i) ∈ (runLines o sheet addresses (d.startNames given) d.numbered).lines →
      l'.outcome.error?.isSome := by
    intro l' hl'
    rw [← mem_runLines_of_getElem?, hl] at hl'
    exact Option.some.inj hl' ▸ hfailed
  rw [runLines_changeAt hreturns hall,
    restoreOrder_changeAt i _ (zipIdx_recomputed_perm o sheet addresses d _)]

def mixedDocument : Document :=
  ⟨[{ id := "1", text := "a = 2 ft" }, { id := "2", text := "b = 5 ft + 12 in" },
    { id := "3", text := "b = 3 ft + 1 ft" }], .pad, .empty⟩

def mixedNames : Store := (Store.define .empty "b" (.scalar 7) "2").define "a" (.scalar 7) "note"

theorem recomputed_eraseText_mixedDocument :
    (mixedDocument.recomputed (some mixedNames) {} .empty .none).2.2 = none ∧
    ((mixedDocument.eraseText 1).recomputed (some mixedNames) {} .empty .none).2.2 = none ∧
    ((mixedDocument.eraseText 1).recomputed (some mixedNames) {} .empty .none).2.1 =
      (mixedDocument.recomputed (some mixedNames) {} .empty .none).2.1 := by
  have hpass : ((runLines {} .empty .none (mixedDocument.startNames (some mixedNames))
        mixedDocument.numbered).fault,
      (runLines {} .empty .none (mixedDocument.startNames (some mixedNames))
        mixedDocument.numbered).lines[1]?.map fun x => (x.2, x.1.outcome.error?.isSome)) =
      (none, some (1, true)) := by
    decide +kernel
  obtain ⟨hfault, hsecond⟩ := Prod.mk.inj hpass
  have hreturns := (Document.fault_recomputed mixedDocument (some mixedNames) {} .empty .none).trans
    hfault
  obtain ⟨⟨l, i⟩, hget, hpair⟩ := Option.map_eq_some_iff.1 hsecond
  obtain ⟨rfl, hfailed⟩ : i = 1 ∧ l.outcome.error?.isSome = true := by simpa using hpair
  have hl : (mixedDocument.recomputed (some mixedNames) {} .empty .none).1[1]? = some l := by
    rw [Document.recomputed_eq]
    exact mem_runLines_of_getElem?.2 (List.mem_of_getElem? hget)
  obtain ⟨hsame, -, hnames⟩ := recomputed_eraseText mixedDocument (mixedDocument.eraseText 1)
    (some mixedNames) {} .empty .none hreturns hl hfailed rfl
  exact ⟨hreturns, hsame, hnames⟩

end UnitSheet
