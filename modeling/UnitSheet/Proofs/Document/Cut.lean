import UnitSheet.Proofs.Document.Faults
import UnitSheet.Proofs.Document.Reading

set_option autoImplicit false

namespace UnitSheet

section

variable {o : Options} {sheet : Sheet} {addresses : AddressReader}

variable (o sheet addresses) in
/-- A document that reads the first lines of another one computes them alike. -/
theorem recompute_of_ordered {d e : Document} {k : Nat} (h : e.ordered = d.ordered.take k) :
    (e.recompute o sheet addresses).1.ordered =
        (runLines o sheet addresses .empty (d.numbered.take k)).lines.map Prod.fst ∧
      (e.recompute o sheet addresses).1.store =
        (runLines o sheet addresses .empty (d.numbered.take k)).store ∧
      (e.recompute o sheet addresses).2 =
        (runLines o sheet addresses .empty (d.numbered.take k)).fault := by
  have hfst : e.numbered.map Prod.fst = (d.numbered.take k).map Prod.fst := by
    rw [List.map_take]
    exact h
  exact ⟨(ordered_recompute e o sheet addresses).trans (runLines_of_map_fst hfst .empty).1,
    (runLines_of_map_fst hfst .empty).2.1, (runLines_of_map_fst hfst .empty).2.2⟩

end

/-- A pass that a fault ended at the `k`-th line `l` of a document: the lines before it and the names
are as if the document ended there, `l` is blank, and the lines behind it are as they were. -/
structure Document.IsCutAt (d : Document) (o : Options) (sheet : Sheet) (addresses : AddressReader)
    (fault : Fault) (k : Nat) (l : Line) : Prop where
  line : d.ordered[k]? = some l
  turn : (l.recompute o ⟨(d.recompute o sheet addresses).1.store, sheet, addresses⟩).fault =
    some fault
  front : ∀ e : Document, e.ordered = d.ordered.take k →
    (e.recompute o sheet addresses).2 = none ∧
    (e.recompute o sheet addresses).1.ordered =
      (d.recompute o sheet addresses).1.ordered.take k ∧
    (e.recompute o sheet addresses).1.store = (d.recompute o sheet addresses).1.store
  names : (d.recompute o sheet addresses).1.store =
    ((d.recompute o sheet addresses).1.ordered.take k).foldl Store.enter .empty
  blank : (d.recompute o sheet addresses).1.ordered[k]? = some (l.settled .blank)
  behind : (d.recompute o sheet addresses).1.ordered.drop (k + 1) = d.ordered.drop (k + 1)

theorem exists_isCutAt {d : Document} {o : Options} {sheet : Sheet} {addresses : AddressReader}
    {fault : Fault} (h : (d.recompute o sheet addresses).2 = some fault) :
    ∃ k l, d.IsCutAt o sheet addresses fault k l := by
  have hend : (runLines o sheet addresses .empty d.numbered).fault = some fault := h
  obtain ⟨before, l, place, behind, hlines, hnone, hfault, hpass⟩ := exists_cut_of_fault hend
  have hread : d.ordered = before.map Prod.fst ++ l :: behind.map Prod.fst := by
    rw [Document.ordered, hlines, List.map_append, List.map_cons]
  have hleft : (d.recompute o sheet addresses).1.ordered =
      (runLines o sheet addresses .empty before).lines.map Prod.fst ++
        l.settled .blank :: behind.map Prod.fst := by
    rw [ordered_recompute, hpass, List.map_append, List.map_cons]
  have hstore : (d.recompute o sheet addresses).1.store =
      (runLines o sheet addresses .empty before).store := by
    rw [recompute_eq, hpass]
  have hbefore : (before.map Prod.fst).length = before.length := List.length_map _
  have hfront : ((runLines o sheet addresses .empty before).lines.map Prod.fst).length =
      before.length := by
    rw [List.length_map, length_runLines]
  refine ⟨before.length, l, ⟨?_, ?_, fun e he => ?_, ?_, ?_, ?_⟩⟩
  · rw [hread, List.getElem?_append_right (by omega), hbefore, Nat.sub_self]
    rfl
  · rw [hstore]
    exact hfault
  · obtain ⟨hlines', hstore', hfault'⟩ :=
      recompute_of_ordered o sheet addresses he
    have htake : d.numbered.take before.length = before := by rw [hlines, List.take_left]
    rw [htake] at hlines' hstore' hfault'
    refine ⟨hfault'.trans hnone, ?_, hstore'.trans hstore.symm⟩
    rw [hlines', hleft, List.take_left' hfront]
  · rw [hstore, hleft, List.take_left' hfront]
    exact store_runLines hnone
  · rw [hleft, List.getElem?_append_right (by omega), hfront, Nat.sub_self]
    rfl
  · rw [hleft, hread, ← List.drop_drop, ← List.drop_drop, List.drop_left' hfront,
      List.drop_left' hbefore, List.drop_succ_cons, List.drop_succ_cons]

/-- The first lines of a document in reading order compute what they compute in a document that holds
no others, and a fault leaves a clean cut. -/
theorem recompute_front (d : Document) (o : Options) (sheet : Sheet) (addresses : AddressReader) :
    (∀ k, (d.front k).ordered = d.ordered.take k ∧
      (d.IsPlaced → (d.upTo k).ordered = d.ordered.take k)) ∧
    (∀ k (e : Document), e.ordered = d.ordered.take k →
      (e.recompute o sheet addresses).1.ordered =
        (d.recompute o sheet addresses).1.ordered.take k) ∧
    ∀ fault, (d.recompute o sheet addresses).2 = some fault →
      ∃ k l, d.IsCutAt o sheet addresses fault k l := by
  refine ⟨fun k => ⟨ordered_front d k, fun h => ordered_upTo h k⟩, fun k e h => ?_,
    fun fault h => exists_isCutAt h⟩
  rw [(recompute_of_ordered o sheet addresses h).1, ordered_recompute, ← take_runLines, List.map_take]

theorem recompute_front_stoppedDocument :
    ((stoppedDocument.upTo 1).recompute {} .empty .standard).1.ordered =
        (stoppedDocument.recompute {} .empty .standard).1.ordered.take 1 ∧
      ∃ k l, stoppedDocument.IsCutAt {} .empty .standard .overflow k l := by
  obtain ⟨hread, hfront, hcut⟩ := recompute_front stoppedDocument {} .empty .standard
  have hplaced : stoppedDocument.IsPlaced := fun h => by cases h
  exact ⟨hfront 1 _ ((hread 1).2 hplaced), hcut _ fault_stoppedDocument⟩

end UnitSheet
