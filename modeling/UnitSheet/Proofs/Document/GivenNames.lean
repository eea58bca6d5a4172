import UnitSheet.Proofs.Document.Isolation
import UnitSheet.Proofs.Document.Names

set_option autoImplicit false

/-!
Recomputing with the names of another store. What belongs to others is left as it is unless a line
takes a name over, what belongs to the lines is what they have defined in the pass, and the document
keeps its own names. A second pass clears more than the first one: it clears the names that the lines
have taken over.
-/

namespace UnitSheet

theorem NameMap.ext_entries {α : Type} {m m' : NameMap α} (h : m.entries = m'.entries) : m = m' := by
  cases m
  cases m'
  cases h
  rfl

theorem filter_setEntry {α : Type} {keep : String × α → Bool} {name : String} {value : α}
    (hkeep : keep (name, value) = false) {entries : List (String × α)}
    (hnodup : (entries.map Prod.fst).Nodup) :
    (setEntry name value entries).filter keep =
      entries.filter fun entry => decide (entry.1 ≠ name) && keep entry := by
  induction entries with
  | nil => simp [setEntry, hkeep]
  | cons first rest ih =>
    rw [List.map_cons, List.nodup_cons] at hnodup
    rw [setEntry]
    by_cases hfirst : first.1 = name
    · have hrest : ∀ entry ∈ rest, keep entry = (decide (entry.1 ≠ name) && keep entry) := by
        intro entry hentry
        have hne : entry.1 ≠ name := by
          rintro rfl
          exact hnodup.1 (hfirst ▸ List.mem_map_of_mem hentry)
        simp [hne]
      rw [if_pos hfirst, List.filter_cons_of_neg (by simp [hkeep]),
        List.filter_cons_of_neg (by simp [hfirst])]
      exact List.filter_congr hrest
    · rw [if_neg hfirst, List.filter_cons, List.filter_cons, ih hnodup.2]
      simp [hfirst]

def isForeign (lines : List Line) (entry : String × Owned) : Bool :=
  decide (entry.2.owner ∉ lines.map Line.id)

/-- Whether the entry belongs to none of the lines, and none of the lines that are done has defined
its name. -/
def isUntouched (lines done : List Line) (entry : String × Owned) : Bool :=
  isForeign lines entry && decide (entry.1 ∉ done.filterMap Line.definedName?)

theorem isForeign_nil : isForeign [] = fun _ => true := by
  funext entry
  simp [isForeign]

theorem isForeign_cons (l : Line) (lines : List Line) (entry : String × Owned) :
    isForeign (l :: lines) entry = (isForeign lines entry && entry.2.owner != l.id) := by
  rw [Bool.eq_iff_iff]
  simp [isForeign, and_comm]

theorem isUntouched_and_isForeign (lines done : List Line) (entry : String × Owned) :
    (isUntouched lines done entry && isForeign lines entry) = isUntouched lines done entry := by
  rw [isUntouched, Bool.and_right_comm, Bool.and_self]

theorem isUntouched_nil (lines : List Line) : isUntouched lines [] = isForeign lines := by
  funext entry
  simp [isUntouched]

theorem isUntouched_cons (lines : List Line) (l : Line) (done : List Line) (entry : String × Owned) :
    isUntouched lines (l :: done) entry =
      (isUntouched lines done entry && isUntouched lines [l] entry) := by
  rw [Bool.eq_iff_iff]
  cases hname : l.definedName? with
  | none =>
    simp only [isUntouched, hname, List.filterMap_cons, List.filterMap_nil, List.not_mem_nil,
      not_false_eq_true, decide_true, Bool.and_true, Bool.and_eq_true]
    tauto
  | some name =>
    simp only [isUntouched, hname, List.filterMap_cons, List.filterMap_nil, List.mem_cons,
      List.not_mem_nil, or_false, not_or, Bool.and_eq_true, decide_eq_true_eq]
    tauto

theorem entries_clearOwners (lines : List Line) (store : Store) :
    NameMap.entries (lines.foldl (fun (s : Store) l => s.clearOwner l.id) store) =
      store.entries.filter (isForeign lines) := by
  induction lines generalizing store with
  | nil => rw [isForeign_nil, List.filter_true, List.foldl_nil]
  | cons l lines ih =>
    rw [List.foldl_cons, ih]
    change (store.entries.filter fun entry => entry.2.owner != l.id).filter _ = _
    rw [List.filter_filter]
    exact List.filter_congr fun entry _ => (isForeign_cons l lines entry).symm

def Store.without (store : Store) (done : List Line) : Store :=
  store.filter fun n _ => decide (n ∉ done.filterMap Line.definedName?)

theorem entries_startNames (d : Document) (store : Store) :
    (d.startNames (some store)).entries = store.entries.filter (isForeign d.lines) :=
  entries_clearOwners d.lines store

theorem foreign_enter {lines : List Line} {l : Line} (hl : l.id ∈ lines.map Line.id) (store : Store) :
    (store.enter l).entries.filter (isForeign lines) =
      store.entries.filter (isUntouched lines [l]) := by
  rw [Store.enter]
  cases hdefinition : l.definition? with
  | none =>
    refine List.filter_congr fun entry _ => ?_
    simp [isUntouched, Line.definedName?, hdefinition]
  | some found =>
    obtain ⟨name, value⟩ := found
    have howned : isForeign lines (name, ⟨value, l.id⟩) = false := by
      simpa [isForeign] using hl
    refine (filter_setEntry howned store.nodup).trans (List.filter_congr fun entry _ => ?_)
    simp [isUntouched, Line.definedName?, hdefinition, Bool.and_comm]

/-- Of the entries of others, those stay whose names no line defines. -/
theorem foreign_foldl_enter {lines done : List Line}
    (hdone : ∀ l ∈ done, l.id ∈ lines.map Line.id) (store : Store) :
    (NameMap.entries (done.foldl Store.enter store)).filter (isForeign lines) =
      store.entries.filter (isUntouched lines done) := by
  induction done generalizing store with
  | nil => rw [isUntouched_nil, List.foldl_nil]
  | cons l done ih =>
    have hl := foreign_enter (hdone l List.mem_cons_self) store
    have hforeign : ∀ entries : List (String × Owned), entries.filter (isUntouched lines done) =
        (entries.filter (isForeign lines)).filter (isUntouched lines done) := by
      intro entries
      rw [List.filter_filter]
      exact List.filter_congr fun entry _ => (isUntouched_and_isForeign lines done entry).symm
    rw [List.foldl_cons, ih fun l' hl' => hdone l' (List.mem_cons_of_mem l hl'), hforeign, hl,
      List.filter_filter]
    exact List.filter_congr fun entry _ => (isUntouched_cons lines l done entry).symm

section
variable {Place : Type} {o : Options} {sheet : Sheet} {addresses : AddressReader} {store : Store}
  {lines : List (Line × Place)}

/-- The lines that have their turn in a pass, as their turns leave them. -/
def doneLines (o : Options) (sheet : Sheet) (addresses : AddressReader) (store : Store)
    (lines : List (Line × Place)) : List Line :=
  (turns o sheet addresses store lines).map fun t => (t.1.recompute o t.2).line

variable (o sheet addresses store) in
theorem doneLines_cons (l : Line) (place : Place) (rest : List (Line × Place)) :
    doneLines o sheet addresses store ((l, place) :: rest) =
      (l.recompute o ⟨store, sheet, addresses⟩).line ::
        (l.recompute o ⟨store, sheet, addresses⟩).followedBy
          fun store => doneLines o sheet addresses store rest := by
  rw [doneLines, turns_cons, List.map_cons]
  unfold Turn.followedBy
  split <;> rfl

variable (o sheet addresses store lines) in
/-- Whether a fault ends a pass or not: the first lines are done, and the names are what they have
defined. -/
theorem runLines_doneLines :
    (runLines o sheet addresses store lines).store =
        (doneLines o sheet addresses store lines).foldl Store.enter store ∧
      doneLines o sheet addresses store lines <+:
        (runLines o sheet addresses store lines).lines.map Prod.fst ∧
      ((runLines o sheet addresses store lines).fault = none →
        doneLines o sheet addresses store lines =
          (runLines o sheet addresses store lines).lines.map Prod.fst) := by
  induction lines generalizing store with
  | nil => exact ⟨rfl, List.prefix_rfl, fun _ => rfl⟩
  | cons entry rest ih =>
    obtain ⟨l, place⟩ := entry
    rw [runLines_cons, doneLines_cons]
    have hstore := store_recompute o ⟨store, sheet, addresses⟩ l
    generalize l.recompute o ⟨store, sheet, addresses⟩ = turn at hstore ⊢
    cases hturn : turn.fault with
    | some fault =>
      simp [andThen_of_fault hturn, Turn.followedBy, hturn, hstore]
    | none =>
      obtain ⟨hnames, hfront, hall⟩ := @ih turn.store
      simp only [andThen_of_none hturn, Turn.followedBy, hturn, List.map_cons, List.foldl_cons]
      refine ⟨?_, (List.prefix_cons_inj _).2 hfront, fun hnone => by rw [← hall hnone]⟩
      rw [hnames, hstore]

end

namespace Document

section
variable {d after : Document} {o : Options} {sheet : Sheet} {addresses : AddressReader}
  {store names : Store}

def doneWith (d : Document) (o : Options) (sheet : Sheet) (addresses : AddressReader)
    (store : Store) : List Line :=
  doneLines o sheet addresses (d.startNames (some store)) d.numbered

theorem recomputeWith_eq (d : Document) (o : Options) (sheet : Sheet) (addresses : AddressReader)
    (store : Store) :
    d.recomputeWith o sheet addresses store =
      ({ d with lines := (d.recomputed (some store) o sheet addresses).1 },
        (d.recomputed (some store) o sheet addresses).2) := rfl

theorem ordered_recomputeWith (d : Document) (o : Options) (sheet : Sheet)
    (addresses : AddressReader) (store : Store) :
    (d.recomputeWith o sheet addresses store).1.ordered =
      (runLines o sheet addresses (d.startNames (some store)) d.numbered).lines.map Prod.fst :=
  congrArg (List.map Prod.fst)
    (numbered_recomputed o sheet addresses d (d.startNames (some store)) d.store)

theorem names_recomputeWith (d : Document) (o : Options) (sheet : Sheet)
    (addresses : AddressReader) (store : Store) :
    (d.recomputeWith o sheet addresses store).2.1 =
      (d.doneWith o sheet addresses store).foldl Store.enter (d.startNames (some store)) :=
  (runLines_doneLines o sheet addresses (d.startNames (some store)) d.numbered).1

theorem map_id_recomputeWith (d : Document) (o : Options) (sheet : Sheet)
    (addresses : AddressReader) (store : Store) :
    (d.recomputeWith o sheet addresses store).1.lines.map Line.id = d.lines.map Line.id := by
  have h := map_fresh_recomputed o sheet addresses d (d.startNames (some store))
  rw [recomputeWith_eq, recomputed_eq]
  simpa [List.map_map, Function.comp_def, Line.fresh] using congrArg (List.map Line.id) h

theorem id_of_mem_doneWith {l : Line} (h : l ∈ d.doneWith o sheet addresses store) :
    l.id ∈ d.lines.map Line.id := by
  rw [← map_id_recomputeWith d o sheet addresses store]
  refine List.mem_map_of_mem (mem_ordered_iff.1 ?_)
  rw [ordered_recomputeWith]
  exact (runLines_doneLines o sheet addresses _ _).2.1.subset h

/-- The entries of others behind a pass are the ones that it has left untouched. -/
theorem foreign_recomputeWith (d : Document) (o : Options) (sheet : Sheet)
    (addresses : AddressReader) (store : Store) :
    (d.recomputeWith o sheet addresses store).2.1.entries.filter (isForeign d.lines) =
      store.entries.filter (isUntouched d.lines (d.doneWith o sheet addresses store)) := by
  rw [names_recomputeWith, foreign_foldl_enter fun l => id_of_mem_doneWith, entries_startNames,
    List.filter_filter]
  exact List.filter_congr fun entry _ => isUntouched_and_isForeign _ _ entry

/-- Recomputing with the names of another store leaves the names of the document as they are, whether
it comes to an end or not. Of the entries of others, those whose names no line has defined are there
in their order, and no others are; what belongs to a line is the last definition of its name in this
pass. A line whose turn ends the pass has defined nothing. -/
theorem recomputeWith_touches (d : Document) (o : Options) (sheet : Sheet)
    (addresses : AddressReader) (store : Store) :
    (d.recomputeWith o sheet addresses store).1.store = d.store ∧
    (d.recomputeWith o sheet addresses store).2.1.entries.filter (isForeign d.lines) =
      store.entries.filter (isUntouched d.lines (d.doneWith o sheet addresses store)) ∧
    (∀ n owned, (d.recomputeWith o sheet addresses store).2.1.get? n = some owned →
      owned.owner ∈ d.lines.map Line.id →
        ∃ l, IsLastDefinition (d.doneWith o sheet addresses store) n l owned.value ∧
          l.id = owned.owner) ∧
    d.doneWith o sheet addresses store <+: (d.recomputeWith o sheet addresses store).1.ordered ∧
    ((d.recomputeWith o sheet addresses store).2.2 = none →
      d.doneWith o sheet addresses store = (d.recomputeWith o sheet addresses store).1.ordered) := by
  obtain ⟨-, hfront, hall⟩ :=
    runLines_doneLines o sheet addresses (d.startNames (some store)) d.numbered
  rw [ordered_recomputeWith]
  refine ⟨rfl, foreign_recomputeWith d o sheet addresses store, fun n owned howned hid => ?_, hfront,
    hall⟩
  rw [names_recomputeWith] at howned
  rcases (get?_foldl_enter_from _ _ n owned).1 howned with hlast | ⟨-, hbefore⟩
  · exact hlast
  · -- What the lines own in the given store has been cleared before the first turn.
    obtain ⟨front, rest, hentries, -⟩ := List.lookup_eq_some_iff.1 hbefore
    have hentry : (n, owned) ∈ (d.startNames (some store)).entries := by simp [hentries]
    rw [entries_startNames, List.mem_filter] at hentry
    exact absurd hid (of_decide_eq_true hentry.2)

theorem fresh_recomputeWith (d : Document) (o : Options) (sheet : Sheet) (addresses : AddressReader)
    (store : Store) : (d.recomputeWith o sheet addresses store).1.fresh = d.fresh := by
  rw [recomputeWith_eq, recomputed_eq]
  simp only [fresh, map_fresh_recomputed]

/-- Documents with the same writing that start with the same names come out the same. -/
theorem recomputeWith_of_fresh {e : Document} {given : Store} (hfresh : e.fresh = d.fresh)
    (hstart : e.startNames (some given) = d.startNames (some store)) (hstore : e.store = d.store)
    (hreturns : (d.recomputeWith o sheet addresses store).2.2 = none) :
    e.recomputeWith o sheet addresses given = d.recomputeWith o sheet addresses store := by
  have hlines : e.numbered.map (Prod.map Line.fresh id) =
      d.numbered.map (Prod.map Line.fresh id) := by
    rw [← numbered_fresh, ← numbered_fresh, hfresh]
  have hlayout : e.fresh.layout = d.fresh.layout := by rw [hfresh]
  change e.layout = d.layout at hlayout
  have hnone : (runLines o sheet addresses (d.startNames (some store)) d.numbered).fault = none :=
    hreturns
  rw [recomputeWith_eq, recomputeWith_eq, recomputed_eq, recomputed_eq, hstart,
    runLines_of_map_fresh hlines hnone, hstore, hlayout]

/-- What a second pass starts with: it clears what the first one has cleared, and the names that lines
have taken over. -/
theorem startNames_recomputeWith (h : d.recomputeWith o sheet addresses store = (after, names, none)) :
    after.startNames (some names) = d.startNames (some (store.without after.ordered)) := by
  have hdone := (runLines_doneLines o sheet addresses (d.startNames (some store)) d.numbered).2.2
    (congrArg (fun pass => pass.2.2) h)
  have hids := map_id_recomputeWith d o sheet addresses store
  have hforeign := foreign_recomputeWith d o sheet addresses store
  rw [← ordered_recomputeWith] at hdone
  rw [doneWith, hdone] at hforeign
  rw [h] at hids hforeign
  have hsame : isForeign after.lines = isForeign d.lines := by
    funext entry
    rw [isForeign, isForeign, hids]
  refine NameMap.ext_entries ?_
  rw [entries_startNames, entries_startNames, hsame, hforeign]
  change _ = (store.entries.filter fun entry =>
    decide (entry.1 ∉ after.ordered.filterMap Line.definedName?)).filter (isForeign d.lines)
  rw [List.filter_filter]
  exact List.filter_congr fun entry _ => rfl

/-- A second pass with the names that a pass has left computes what the first one computes without the
names that lines have defined. So it changes nothing if no line has taken a name over from somebody
else. -/
theorem recomputeWith_again (h : d.recomputeWith o sheet addresses store = (after, names, none)) :
    (after.recomputeWith o sheet addresses names = (after, names, none) ↔
      d.recomputeWith o sheet addresses (store.without after.ordered) = (after, names, none)) ∧
    ((∀ entry ∈ store.entries, entry.2.owner ∉ d.lines.map Line.id →
        ∀ l ∈ after.lines, l.definedName? ≠ some entry.1) →
      after.recomputeWith o sheet addresses names = (after, names, none)) := by
  have hstart := startNames_recomputeWith h
  obtain ⟨hfresh, hstore⟩ : after.fresh = d.fresh ∧ after.store = d.store := by
    have hafter : (d.recomputeWith o sheet addresses store).1 = after := congrArg Prod.fst h
    rw [← hafter]
    exact ⟨fresh_recomputeWith d o sheet addresses store, rfl⟩
  have hagain : after.recomputeWith o sheet addresses names = (after, names, none) ↔
      d.recomputeWith o sheet addresses (store.without after.ordered) = (after, names, none) := by
    constructor
    · intro hsecond
      rw [recomputeWith_of_fresh hfresh.symm hstart.symm hstore.symm (by rw [hsecond]), hsecond]
    · intro hfirst
      rw [recomputeWith_of_fresh hfresh hstart hstore (by rw [hfirst]), hfirst]
  refine ⟨hagain, fun hkept => hagain.2 ?_⟩
  have hnames : d.startNames (some (store.without after.ordered)) = d.startNames (some store) := by
    refine NameMap.ext_entries ?_
    rw [entries_startNames, entries_startNames]
    change (store.entries.filter fun entry =>
      decide (entry.1 ∉ after.ordered.filterMap Line.definedName?)).filter (isForeign d.lines) = _
    rw [List.filter_filter]
    refine List.filter_congr fun entry hentry => ?_
    rw [Bool.and_eq_left_iff_imp]
    intro hforeign
    rw [decide_eq_true_eq, List.mem_filterMap]
    rintro ⟨l, hl, hname⟩
    exact hkept entry hentry (of_decide_eq_true hforeign) l (mem_ordered_iff.1 hl) hname
  rw [recomputeWith_of_fresh rfl hnames rfl (by rw [h]), h]

def keptNames : Store := (Store.define .empty "b" (.scalar 7) "2").define "g" (.scalar 7) "note"

theorem recomputeWith_again_mixedDocument : ∃ after names,
    mixedDocument.recomputeWith {} .empty .none keptNames = (after, names, none) ∧
      after.recomputeWith {} .empty .none names = (after, names, none) := by
  have hpass : ((runLines {} .empty .none (mixedDocument.startNames (some keptNames))
        mixedDocument.numbered).fault,
      (runLines {} .empty .none (mixedDocument.startNames (some keptNames))
        mixedDocument.numbered).lines.map fun x => x.1.definedName?) =
      (none, [some "a", none, some "b"]) := by
    decide +kernel
  obtain ⟨hfault, hdefined⟩ := Prod.mk.inj hpass
  have hreturns : (mixedDocument.recomputeWith {} .empty .none keptNames).2.2 = none := by
    rw [recomputeWith_eq, fault_recomputed, hfault]
  have hordered := ordered_recomputeWith mixedDocument {} .empty .none keptNames
  have hforeign : ∀ entry ∈ keptNames.entries, entry.2.owner ∉ mixedDocument.lines.map Line.id →
      some entry.1 ∉ [some "a", none, some "b"] := by
    decide
  rcases h : mixedDocument.recomputeWith {} .empty .none keptNames with ⟨after, names, fault⟩
  rw [h] at hreturns hordered
  obtain rfl : fault = none := hreturns
  refine ⟨after, names, rfl, (recomputeWith_again h).2 fun entry hentry howner l hl hname => ?_⟩
  rw [← mem_ordered_iff, hordered] at hl
  obtain ⟨x, hx, rfl⟩ := List.mem_map.1 hl
  have hmem : x.1.definedName? ∈ [some "a", none, some "b"] :=
    hdefined ▸ List.mem_map_of_mem hx (f := fun x : Line × Nat => x.1.definedName?)
  exact hforeign entry hentry howner (hname ▸ hmem)

end

end Document

theorem readLine_takenOver : readLine "a = a" = .ok (⟨some "a", .name "a"⟩, .full) := by
  have hprepared : preparedText "a = a" = "a = a" := by decide +kernel
  have hstrays : (lex "a = a").strays = [] := by decide +kernel
  have htokens : Token.significant (lex "a = a").tokens =
      [⟨.identifier, "a", 0⟩, ⟨.equal, "=", 2⟩, ⟨.identifier, "a", 4⟩] := by decide +kernel
  have hname : Grammar.Derives .sum [⟨.identifier, "a", 4⟩] (.name "a") :=
    .sumOfProduct (.productOfPower (.powerOfSigned (.signedOfPrimary (.name rfl))))
  obtain ⟨hstrays, hparse⟩ :=
    parse_preparedText hprepared hstrays htokens (.definition rfl rfl hname)
  exact readLine_of_parse hstrays hparse nofun

def takenOverLine : Line := { id := "1", text := "a = a" }

def takenOverNames : Store := Store.define .empty "a" (.scalar 7) "note"

theorem recompute_takenOverLine : takenOverLine.recompute {} ⟨takenOverNames, .empty, .none⟩ =
    ⟨takenOverLine.settled (.value (.scalar 7) (displayNumber 7)),
      takenOverNames.define "a" (.scalar 7) "1", none⟩ := by
  have hkind : lineKind (normalize takenOverLine.text) ≠ .text := by decide +kernel
  have hcompute : computeLine {} ⟨takenOverNames, .empty, .none⟩ takenOverLine.text =
      .ok ⟨some "a", .scalar 7, displayNumber 7⟩ := by
    rw [computeLine, takenOverLine, evaluateLine_of_readLine readLine_takenOver]
    rfl
  exact recompute_of_ok hkind hcompute

theorem recompute_takenOverLine_empty : takenOverLine.recompute {} ⟨.empty, .empty, .none⟩ =
    ⟨takenOverLine.settled (.failed (.eval (.unknownName "a" none))), .empty, none⟩ := by
  have hkind : lineKind (normalize takenOverLine.text) ≠ .text := by decide +kernel
  have hcompute : computeLine {} ⟨.empty, .empty, .none⟩ takenOverLine.text =
      .error (.mistake (.eval (.unknownName "a" none))) := by
    rw [computeLine, takenOverLine, evaluateLine_of_readLine readLine_takenOver]
    rfl
  exact recompute_of_error hkind hcompute

theorem recomputeWith_singleton {o : Options} {sheet : Sheet} {addresses : AddressReader}
    {l l' : Line} {own store names : Store}
    (h : l.recompute o ⟨store.clearOwner l.id, sheet, addresses⟩ = ⟨l', names, none⟩) :
    Document.recomputeWith ⟨[l], .pad, own⟩ o sheet addresses store =
      (⟨[l'], .pad, own⟩, names, none) := by
  have hnumbered : Document.numbered ⟨[l], .pad, own⟩ = [(l, 0)] := rfl
  simp [Document.recomputeWith, Document.runFrom, hnumbered, runLines, h, Turn.andThen, restoreOrder]

/-- The line takes the name over from the note, with the value that it reads there; a second pass
clears the name and finds none. -/
theorem recomputeWith_takenOver : ∃ after names again left,
    Document.recomputeWith ⟨[takenOverLine], .pad, .empty⟩ {} .empty .none takenOverNames =
      (after, names, none) ∧
    after.recomputeWith {} .empty .none names = (again, left, none) ∧
    (after.lines.map fun l => l.outcome.result?.isSome) = [true] ∧
    (again.lines.map fun l => l.outcome.result?.isSome) = [false] ∧
    names.names = ["a"] ∧ left.names = [] := by
  have hkept : takenOverNames.clearOwner takenOverLine.id = takenOverNames :=
    NameMap.ext_entries rfl
  have hcleared : (takenOverNames.define "a" (.scalar 7) "1").clearOwner takenOverLine.id = .empty :=
    NameMap.ext_entries rfl
  have hfirst : Document.recomputeWith ⟨[takenOverLine], .pad, .empty⟩ {} .empty .none
      takenOverNames =
        (⟨[takenOverLine.settled (.value (.scalar 7) (displayNumber 7))], .pad, .empty⟩,
          takenOverNames.define "a" (.scalar 7) "1", none) := by
    refine recomputeWith_singleton ?_
    rw [hkept]
    exact recompute_takenOverLine
  have hsecond : Document.recomputeWith
      ⟨[takenOverLine.settled (.value (.scalar 7) (displayNumber 7))], .pad, .empty⟩ {} .empty .none
      (takenOverNames.define "a" (.scalar 7) "1") =
        (⟨[takenOverLine.settled (.failed (.eval (.unknownName "a" none)))], .pad, .empty⟩,
          .empty, none) := by
    refine recomputeWith_singleton ?_
    exact (congrArg (fun names => takenOverLine.recompute {} ⟨names, .empty, .none⟩) hcleared).trans
      recompute_takenOverLine_empty
  exact ⟨_, _, _, _, hfirst, hsecond, rfl, rfl, rfl, rfl⟩

end UnitSheet
