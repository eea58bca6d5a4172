import Mathlib.Data.Set.Card
import UnitSheet.Proofs.Evaluation.Rules
import UnitSheet.Proofs.Token.Spelling

set_option autoImplicit false

namespace UnitSheet

def Cells.written (c : Cells) : Set Address := {a | ∃ text, c.read a = .ok text ∧ text ≠ ""}

/-- The evaluation of the expression has the stack at some time: while it evaluates a part, or while
it reads the cell that it has entered last. -/
inductive Cells.Holds (c : Cells) (store : Store) (e : Expr) : List Address → Prop
  | part {stack : List Address} {e' : Expr} :
      Relation.ReflTransGen (c.Calls store) ([], e) (stack, e') → c.Holds store e stack
  | reading {stack : List Address} {label : String} {a : Address} :
      Relation.ReflTransGen (c.Calls store) ([], e) (stack, .cell label) →
        c.addresses (upper label) = .ok (some a) → a ∉ stack → c.Holds store e (a :: stack)

structure Cells.IsStack (c : Cells) (stack : List Address) : Prop where
  nodup : stack.Nodup
  written : ∀ a ∈ stack, a ∈ c.written

noncomputable def Cells.sheet (c : Cells) (h : c.written.Finite) : Sheet where
  read := c.read
  occupied := h.toFinset.toList
  covers a text hread hne := by
    rw [Finset.mem_toList, Set.Finite.mem_toFinset]
    exact ⟨text, hread, hne⟩

section
variable {c : Cells} {store : Store} {e : Expr} {stack : List Address}

theorem Scope.finite_written (s : Scope) : s.cells.written.Finite := by
  refine (List.finite_toSet s.sheet.occupied).subset ?_
  rintro a ⟨text, hread, hne⟩
  exact s.sheet.covers a text hread hne

theorem mem_written_of_formula {label : String} {a : Address} {statement : Statement}
    (h : c.formula label a = .ok statement) : a ∈ c.written := by
  cases hread : c.read a with
  | error reason => simp [Cells.formula, Sheet.formula, Sheet.ofCells, hread] at h
  | ok text =>
    refine ⟨text, hread, ?_⟩
    rintro rfl
    have hparse := (Cells.formula_eq_ok_iff hread).1 h
    rw [cellText_empty] at hparse
    exact (Grammar.parse_eq_ok_iff.1 hparse.2).ne_nil (by decide +kernel)

/-- A call goes to a part of the expression, or it enters a cell and leaves one less to enter. -/
theorem calls_lex (h : c.written.Finite) {p p' : List Address × Expr} (hcall : c.Calls store p p') :
    Prod.Lex (· < ·) (· < ·) (((c.sheet h).free p'.1).length, sizeOf p'.2)
      (((c.sheet h).free p.1).length, sizeOf p.2) := by
  cases hcall with
  | operand =>
    refine .right _ ?_
    simp only [Expr.signed.sizeOf_spec]
    omega
  | left =>
    refine .right _ ?_
    simp only [Expr.binary.sizeOf_spec]
    omega
  | right _ =>
    refine .right _ ?_
    simp only [Expr.binary.sizeOf_spec]
    omega
  | @cell stack label a statement _ hs hf =>
    refine .left _ _ (Sheet.free_cons_lt ?_ (by simpa using hs))
    exact Finset.mem_toList.2 (h.mem_toFinset.2 (mem_written_of_formula hf))

/-- No evaluation calls itself without end. -/
theorem wellFounded_calls (h : c.written.Finite) (store : Store) :
    WellFounded fun p' p => c.Calls store p p' :=
  Subrelation.wf (calls_lex h) (InvImage.wf _ (Prod.lex ⟨_, Nat.lt_wfRel.wf⟩ ⟨_, Nat.lt_wfRel.wf⟩).wf)

theorem isStack_of_calls {p p' : List Address × Expr} (hcall : c.Calls store p p')
    (h : c.IsStack p.1) : c.IsStack p'.1 := by
  cases hcall with
  | operand => exact h
  | left => exact h
  | right _ => exact h
  | @cell stack label a statement _ hs hf =>
    refine ⟨List.nodup_cons.2 ⟨hs, h.nodup⟩, fun b hb => ?_⟩
    rcases List.mem_cons.1 hb with rfl | hb
    · exact mem_written_of_formula hf
    · exact h.written b hb

theorem isStack_of_reached {p : List Address × Expr}
    (h : Relation.ReflTransGen (c.Calls store) ([], e) p) : c.IsStack p.1 := by
  induction h with
  | refl => exact ⟨List.nodup_nil, fun a ha => absurd ha List.not_mem_nil⟩
  | tail _ hcall ih => exact isStack_of_calls hcall ih

theorem Cells.IsStack.length_le (hfinite : c.written.Finite) (h : c.IsStack stack) :
    stack.length ≤ c.written.ncard := by
  classical
  have hsub : (stack.toFinset : Set Address) ⊆ c.written := by
    intro a ha
    exact h.written a (List.mem_toFinset.1 ha)
  rw [← List.toFinset_card_of_nodup h.nodup, ← Set.ncard_coe_finset]
  exact Set.ncard_le_ncard hsub hfinite

/-- Where finitely many cells have a text, no evaluation calls itself without end, every expression
has exactly one outcome, which is what the evaluator gives, and the stack of the cells under
evaluation never holds a cell twice and never holds more than one cell besides those with a text. -/
theorem evaluation_ends (h : c.written.Finite) (store : Store) (e : Expr) :
    (WellFounded fun p' p => c.Calls store p p') ∧
    (∃! r, c.Evaluates store [] e r) ∧
    (∀ sheet : Sheet, sheet.read = c.read →
      c.Evaluates store [] e (Scope.eval ⟨store, sheet, c.addresses⟩ e)) ∧
    ∀ stack, c.Holds store e stack → stack.Nodup ∧ stack.length ≤ c.written.ncard + 1 := by
  have hvalue : c.Evaluates store [] e (Scope.eval ⟨store, c.sheet h, c.addresses⟩ e) :=
    (evaluates_sheet_iff rfl).2 rfl
  refine ⟨wellFounded_calls h store, ⟨_, hvalue, fun r hr => hr.unique hvalue⟩,
    fun sheet hread => (evaluates_sheet_iff hread).2 rfl, fun stack hstack => ?_⟩
  cases hstack with
  | part hreached =>
    have hstack := isStack_of_reached hreached
    exact ⟨hstack.nodup, (hstack.length_le h).trans (Nat.le_succ _)⟩
  | reading hreached _ hs =>
    have hstack := isStack_of_reached hreached
    exact ⟨List.nodup_cons.2 ⟨hs, hstack.nodup⟩, Nat.succ_le_succ (hstack.length_le h)⟩

end

def mutualScope : Scope :=
  ⟨.empty, .ofCells [(⟨0, 0⟩, .ok "B1"), (⟨0, 1⟩, .ok "a1")], .standard⟩

theorem addresses_mutualScope :
    mutualScope.cells.addresses (upper "A1") = .ok (some ⟨0, 0⟩) ∧
      mutualScope.cells.addresses (upper "a1") = .ok (some ⟨0, 0⟩) ∧
      mutualScope.cells.addresses (upper "B1") = .ok (some ⟨0, 1⟩) := by
  have hfirst : Address.ofText? (upper "A1") = some ⟨0, 0⟩ := by decide +kernel
  have hlower : Address.ofText? (upper "a1") = some ⟨0, 0⟩ := by decide +kernel
  have hsecond : Address.ofText? (upper "B1") = some ⟨0, 1⟩ := by decide +kernel
  exact ⟨congrArg Except.ok hfirst, congrArg Except.ok hlower, congrArg Except.ok hsecond⟩

theorem calls_mutualScope :
    mutualScope.cells.Calls .empty ([], .cell "A1") ([⟨0, 0⟩], .cell "B1") ∧
      mutualScope.cells.Calls .empty ([⟨0, 0⟩], .cell "B1") ([⟨0, 1⟩, ⟨0, 0⟩], .cell "a1") := by
  obtain ⟨hfirst, -, hsecond⟩ := addresses_mutualScope
  have hformula : mutualScope.cells.formula (upper "A1") ⟨0, 0⟩ = .ok ⟨none, .cell "B1"⟩ := by
    have hstrays : (lex (cellText "B1")).strays = [] := by decide +kernel
    have htokens : (lex (cellText "B1")).tokens = [⟨.cellRef, "B1", 0⟩] := by decide +kernel
    exact Cells.formula_of_primary rfl hstrays htokens rfl (.cell rfl)
  have hback : mutualScope.cells.formula (upper "B1") ⟨0, 1⟩ = .ok ⟨none, .cell "a1"⟩ := by
    have hstrays : (lex (cellText "a1")).strays = [] := by decide +kernel
    have htokens : (lex (cellText "a1")).tokens = [⟨.cellRef, "a1", 0⟩] := by decide +kernel
    exact Cells.formula_of_primary rfl hstrays htokens rfl (.cell rfl)
  exact ⟨.cell hfirst (by decide) hformula, .cell hsecond (by decide) hback⟩

theorem evaluation_ends_mutualScope :
    mutualScope.cells.written.Finite ∧ (∃! r, mutualScope.cells.Evaluates .empty [] (.cell "A1") r) ∧
      mutualScope.cells.Holds .empty (.cell "A1") [⟨0, 1⟩, ⟨0, 0⟩] ∧
        2 ≤ mutualScope.cells.written.ncard + 1 := by
  have hfinite := mutualScope.finite_written
  obtain ⟨hcall, hback⟩ := calls_mutualScope
  have hholds : mutualScope.cells.Holds .empty (.cell "A1") [⟨0, 1⟩, ⟨0, 0⟩] :=
    .part (.tail (.single hcall) hback)
  obtain ⟨-, houtcome, -, hstack⟩ := evaluation_ends hfinite .empty (.cell "A1")
  exact ⟨hfinite, houtcome, hholds, (hstack _ hholds).2⟩

end UnitSheet
