import UnitSheet.Proofs.Document.Isolation
import UnitSheet.Proofs.Document.Names
import UnitSheet.Proofs.Line.Kind

set_option autoImplicit false

namespace UnitSheet

def shownDefinition? (l : Line) : Option (String × Quantity) :=
  if l.kind = .definition then
    l.outcome.result?.bind fun q => (definition? (normalize l.text)).map fun d => (d.name, q)
  else none

/-- The line has the kind that its text gives it, and a result only of a statement on it. -/
structure Line.IsSettled (l : Line) : Prop where
  kind : l.kind = lineKind (normalize l.text)
  read : ∀ q, l.outcome.result? = some q → ∃ statement tier, readLine l.text = .ok (statement, tier)

theorem isSettled_recompute (o : Options) (s : Scope) (l : Line) : (l.recompute o s).line.IsSettled := by
  have hread : ∀ q, (l.recompute o s).line.outcome.result? = some q →
      ∃ statement tier, readLine l.text = .ok (statement, tier) := by
    intro q hq
    rcases recompute_cases o s l with ⟨-, hnone⟩ | ⟨statement, tier, _, hread, -⟩
    · rw [hnone] at hq
      cases hq
    · exact ⟨statement, tier, hread.2⟩
  rw [line_recompute] at hread ⊢
  generalize l.answer o s = outcome at hread ⊢
  have htext : (l.settled outcome).text = l.text := by rw [Line.settled]
  have hkind : (l.settled outcome).kind = lineKind (normalize l.text) := by rw [Line.settled]
  exact ⟨by rw [hkind, htext], by rwa [htext]⟩

theorem Line.IsSettled.definition?_eq {l : Line} (h : l.IsSettled)
    (hplain : l.kind = .definition ∨ HasPlainHead l.text) : l.definition? = shownDefinition? l := by
  cases hq : l.outcome.result? with
  | none =>
    rw [definition?_of_result hq, shownDefinition?, hq]
    exact (ite_self _).symm
  | some q =>
    obtain ⟨statement, tier, hread⟩ := h.read q hq
    obtain ⟨hiff, hname⟩ := kind_of_readLine hread
    rw [← h.kind] at hiff hname
    rw [Line.definition?, hread, shownDefinition?, hq]
    dsimp only
    by_cases hlooks : l.kind = .definition
    · rw [if_pos hlooks, ← hname hlooks]
      simp only [Option.bind_some, Option.map_map, Function.comp_def]
    · have hnone : statement.target = none := by
        rw [← Option.not_isSome_iff_eq_none]
        exact fun hsome => hlooks (hiff.2 ⟨hsome, hplain.resolve_left hlooks⟩)
      rw [if_neg hlooks, hnone]
      rfl

section
variable {d : Document} {o : Options} {sheet : Sheet} {addresses : AddressReader} {start : Store}

theorem mem_restoreOrder {xs : List (Line × Nat)} {l : Line} :
    l ∈ restoreOrder xs ↔ l ∈ xs.map Prod.fst :=
  ((List.mergeSort_perm xs fun a b => decide (a.2 ≤ b.2)).map Prod.fst).mem_iff

theorem isSettled_runLines
    (hreturns : (runLines o sheet addresses start d.numbered).fault = none) {l : Line}
    (hl : l ∈ restoreOrder (runLines o sheet addresses start d.numbered).lines) : l.IsSettled := by
  rw [mem_restoreOrder, (lines_runLines_of_none hreturns).2] at hl
  obtain ⟨⟨l', s⟩, -, rfl⟩ := List.mem_map.1 hl
  rw [← line_recompute]
  exact isSettled_recompute o s l'

end

/-- Behind a recomputation that comes to its end, a line with a result is a definition exactly if its
statement defines a name and its head has no repeats, and it then looks like the definition of that
name. Such a line, and any other one with such a head, defines what it looks like, and the names are
those that the recomputation starts with and those that its lines define, in reading order. -/
theorem kind_of_recomputed (d : Document) (given : Option Store) (o : Options) (sheet : Sheet)
    (addresses : AddressReader) (hreturns : (d.recomputed given o sheet addresses).2.2 = none) :
    let after : Document := { d with lines := (d.recomputed given o sheet addresses).1 }
    (∀ l ∈ after.lines, ∀ q, l.outcome.result? = some q → ∃ statement tier,
      readLine l.text = .ok (statement, tier) ∧
        (l.kind = .definition ↔ statement.target.isSome = true ∧ HasPlainHead l.text) ∧
        (l.kind = .definition →
          (definition? (normalize l.text)).map Definition.name = statement.target)) ∧
    (∀ l ∈ after.lines, l.kind = .definition ∨ HasPlainHead l.text →
      l.definition? = shownDefinition? l) ∧
    (d.recomputed given o sheet addresses).2.1 =
      after.ordered.foldl Store.enter (d.startNames given) := by
  rw [Document.recomputed_eq] at hreturns ⊢
  dsimp only at hreturns ⊢
  refine ⟨fun l hl q hq => ?_, fun l hl hplain => ?_, ?_⟩
  · have hsettled := isSettled_runLines hreturns hl
    obtain ⟨statement, tier, hread⟩ := hsettled.read q hq
    rw [hsettled.kind]
    exact ⟨statement, tier, hread, kind_of_readLine hread⟩
  · exact (isSettled_runLines hreturns hl).definition?_eq hplain
  · have hnumbered := numbered_recomputed o sheet addresses d (d.startNames given) d.store
    rw [store_runLines hreturns, Document.ordered]
    exact congrArg (fun lines => (lines.map Prod.fst).foldl Store.enter (d.startNames given))
      hnumbered.symm

def unitNamedDocument : Document :=
  ⟨[{ id := "1", text := "in = 5 ft" }, { id := "2", text := "2 ft + 3 ft =" }], .pad, .empty⟩

theorem kind_of_recomputed_unitNamedDocument :
    (unitNamedDocument.recomputed none {} .empty .none).2.2 = none ∧
    ∃ l found, (unitNamedDocument.recomputed none {} .empty .none).1[0]? = some l ∧
      definition? (normalize l.text) = some found ∧ l.definedName? = some found.name := by
  have hpass : ((runLines {} .empty .none (unitNamedDocument.startNames none)
        unitNamedDocument.numbered).fault,
      (runLines {} .empty .none (unitNamedDocument.startNames none)
        unitNamedDocument.numbered).lines[0]?.map fun x =>
          (x.2, x.1.kind, x.1.outcome.result?.isSome)) = (none, some (0, .definition, true)) := by
    decide +kernel
  obtain ⟨hfault, hfirst⟩ := Prod.mk.inj hpass
  have hreturns := (Document.fault_recomputed unitNamedDocument none {} .empty .none).trans hfault
  obtain ⟨⟨l, i⟩, hget, hfound⟩ := Option.map_eq_some_iff.1 hfirst
  obtain ⟨rfl, hkind, hresult⟩ : i = 0 ∧ l.kind = .definition ∧ l.outcome.result?.isSome = true := by
    simpa using hfound
  have hl : (unitNamedDocument.recomputed none {} .empty .none).1[0]? = some l := by
    rw [Document.recomputed_eq]
    exact mem_runLines_of_getElem?.2 (List.mem_of_getElem? hget)
  obtain ⟨q, hq⟩ := Option.isSome_iff_exists.1 hresult
  obtain ⟨hlines, -, -⟩ := kind_of_recomputed unitNamedDocument none {} .empty .none hreturns
  obtain ⟨statement, tier, hread, hiff, hname⟩ := hlines l (List.mem_of_getElem? hl) q hq
  obtain ⟨n, hn⟩ := Option.isSome_iff_exists.1 (hiff.1 hkind).1
  obtain ⟨found, hfound, hnamed⟩ := Option.map_eq_some_iff.1 ((hname hkind).trans hn)
  refine ⟨hreturns, l, found, hl, hfound, ?_⟩
  rw [Line.definedName?, Line.definition?, hread, hq, hnamed]
  dsimp only
  rw [hn]
  rfl

def repeatedNameDocument : Document :=
  ⟨[{ id := "1", text := "in in = 5 ft + 2 ft" }], .pad, .empty⟩

/-- No line is a definition, and yet there is a name. -/
theorem recompute_repeatedName :
    (repeatedNameDocument.recompute {} .empty .none).2 = none ∧
      (∀ l ∈ (repeatedNameDocument.recompute {} .empty .none).1.lines,
        l.kind = .expression ∧ definition? (normalize l.text) = none) ∧
      (repeatedNameDocument.recompute {} .empty .none).1.store.owner? "in" = some "1" := by
  have hend : ((repeatedNameDocument.recompute {} .empty .none).2,
      (repeatedNameDocument.recompute {} .empty .none).1.lines.map fun l =>
        (l.kind, definition? (normalize l.text)),
      (repeatedNameDocument.recompute {} .empty .none).1.store.owner? "in") =
        (none, [(.expression, none)], some "1") := by
    decide +kernel
  rcases h : repeatedNameDocument.recompute {} .empty .none with ⟨after, fault⟩
  rw [h] at hend
  obtain ⟨hreturns, hend⟩ := Prod.mk.inj hend
  obtain ⟨hlooks, howner⟩ := Prod.mk.inj hend
  refine ⟨hreturns, fun l hl => ?_, howner⟩
  have hmem := List.mem_map_of_mem hl (f := fun l => (l.kind, definition? (normalize l.text)))
  rw [hlooks, List.mem_singleton] at hmem
  exact Prod.mk.inj hmem

end UnitSheet
