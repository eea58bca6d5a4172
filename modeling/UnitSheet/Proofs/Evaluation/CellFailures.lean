import UnitSheet.Proofs.Evaluation.Cycles
import UnitSheet.Proofs.Evaluation.Depth

set_option autoImplicit false

namespace UnitSheet

def Failure.IsAboutCell (f : Failure) : Prop := ∃ e label, f = .eval e ∧ e.cellLabel? = some label

def Address.HasColumn (a : Address) : Prop := 0 ≤ a.col ∧ a.col < columnCount

instance (a : Address) : Decidable a.HasColumn := inferInstanceAs (Decidable (_ ∧ _))

/-- An evaluation comes to the label of a cell that is under evaluation by then. -/
structure Cells.ComesBack (c : Cells) (store : Store) (p : List Address × Expr)
    (stack : List Address) (label : String) (a : Address) : Prop where
  reached : Relation.ReflTransGen (c.Calls store) p (stack, .cell label)
  address : c.addresses (upper label) = .ok (some a)
  again : a ∈ stack

section
variable {label : String} {stack : List Address} {a : Address} {f : Failure}

theorem circularFailure_of_hasColumn (label : String) (ha : a ∈ stack)
    (h : ∀ b ∈ stack, b.HasColumn) :
    ∃ path, circularFailure label stack a = .eval (.circular label path) := by
  rcases circularFailure_cases label stack a with ⟨path, -, hpath⟩ | ⟨cause, hlabels, -⟩
  · exact ⟨path, hpath⟩
  · refine absurd hlabels (mapM_label_ne_error fun b hb => ?_)
    rcases List.mem_append.1 hb with hb | hb
    · exact h b (List.mem_reverse.1 hb)
    · exact List.mem_singleton.1 hb ▸ h a ha

theorem isAboutCell_of_isUnusable (h : f.IsUnusable label) : f.IsAboutCell := by
  cases h with
  | unreadable | empty | stray | malformed => exact ⟨_, label, rfl, rfl⟩

/-- A cell passes a complaint about another cell on as it is. -/
theorem cellFailure_of_isAboutCell (h : f.IsAboutCell) : cellFailure label f = f := by
  obtain ⟨e, inner, rfl, he⟩ := h
  simp only [cellFailure, Failure.eval, he, Option.isSome_some, if_true]

/-- Every other complaint becomes one about the cell. -/
theorem cellFailure_of_isArithmetic (label : String) (h : f.IsArithmetic) :
    (cellFailure label f).IsAboutCell ∨ (∃ fault, f = .fault fault) ∧ cellFailure label f = f := by
  cases h with
  | @mistake e he =>
    refine .inl ⟨.cellFailed label e, label, ?_, rfl⟩
    simp only [cellFailure, Failure.eval, he, Option.isSome_none, Bool.false_eq_true, if_false]
  | overflow => exact .inr ⟨⟨_, rfl⟩, rfl⟩
  | zeroDivision => exact .inr ⟨⟨_, rfl⟩, rfl⟩

theorem cellFailure_circularFailure (other label : String) (stack : List Address) (a : Address) :
    cellFailure other (circularFailure label stack a) = circularFailure label stack a := by
  rcases circularFailure_cases label stack a with ⟨path, -, h⟩ | ⟨cause, -, h⟩
  · exact cellFailure_of_isAboutCell ⟨_, label, h, rfl⟩
  · rw [h]
    rfl

theorem cellLabel?_of_cellFailure {e : EvalError} (h : cellFailure label f = .eval e) :
    ∃ inner, e.cellLabel? = some inner := by
  unfold cellFailure at h
  split at h
  · rename_i inner
    split at h
    · rename_i hinner
      cases h
      exact Option.isSome_iff_exists.1 hinner
    · cases h
      exact ⟨label, rfl⟩
  · rename_i hother
    exact absurd h (hother e)

end

section
variable {c : Cells} {store : Store} {p p' : List Address × Expr} {stack : List Address} {e : Expr}
  {label : String} {a : Address} {f : Failure} {r : Except Failure Quantity}

theorem Cells.ComesBack.head (hcall : c.Calls store p p') (h : c.ComesBack store p' stack label a) :
    c.ComesBack store p stack label a :=
  ⟨.head hcall h.reached, h.address, h.again⟩

/-- The failure comes from the arithmetic, from a cell, or from a circle whose path cannot be
written. -/
def Cells.Accounts (c : Cells) (store : Store) (p : List Address × Expr) (f : Failure) : Prop :=
  f.IsArithmetic ∨ f.IsAboutCell ∨
    ∃ stack label a cause, c.ComesBack store p stack label a ∧
      circularFailure (upper label) stack a = .fault (.column cause) ∧ f = .fault (.column cause)

theorem Cells.Accounts.head (hcall : c.Calls store p p') (h : c.Accounts store p' f) :
    c.Accounts store p f :=
  h.imp_right (Or.imp_right fun ⟨stack, label, a, cause, hback, hcircular⟩ =>
    ⟨stack, label, a, cause, hback.head hcall, hcircular⟩)

theorem accounts_cellFailure {q : List Address × Expr} (h : c.Accounts store q f) :
    c.Accounts store q (cellFailure label f) := by
  rcases h with harith | hcell | ⟨stack, inner, a, cause, hback, hcircular, rfl⟩
  · rcases cellFailure_of_isArithmetic label harith with hcell | ⟨-, hsame⟩
    · exact .inr (.inl hcell)
    · exact .inl (hsame.symm ▸ harith)
  · exact .inr (.inl (cellFailure_of_isAboutCell hcell |>.symm ▸ hcell))
  · exact .inr (.inr ⟨stack, inner, a, cause, hback, hcircular, rfl⟩)

theorem accounts_of_evaluates (h : c.Evaluates store stack e r) (hr : r = .error f) :
    c.Accounts store (stack, e) f := by
  induction h generalizing f with
  | literal => exact .inl (isArithmetic_of_ofUnit hr)
  | name => exact .inl (isArithmetic_of_evalName hr)
  | unresolved =>
    obtain rfl := Except.error.inj hr
    exact .inr (.inl ⟨_, _, rfl, rfl⟩)
  | invalid =>
    obtain rfl := Except.error.inj hr
    exact .inr (.inl ⟨_, _, rfl, rfl⟩)
  | @circular stack label a ha hs =>
    obtain rfl := Except.error.inj hr
    rcases circularFailure_cases (upper label) stack a with ⟨path, -, hpath⟩ | ⟨cause, -, hcause⟩
    · exact .inr (.inl ⟨_, _, hpath, rfl⟩)
    · exact .inr (.inr ⟨stack, label, a, cause, ⟨.refl, ha, hs⟩, hcause, hcause⟩)
  | unusable _ _ hf =>
    obtain rfl := Except.error.inj hr
    exact .inr (.inl (isAboutCell_of_isUnusable (isUnusable_of_formula hf)))
  | @cell stack label a statement r ha hs hf _ ih =>
    cases r with
    | ok v => cases hr
    | error g =>
      obtain rfl := Except.error.inj hr
      exact (accounts_cellFailure (ih rfl)).head (.cell ha hs hf)
  | @signed stack sign operand r _ ih =>
    cases r with
    | ok v => exact .inl (isArithmetic_of_signApply hr)
    | error g =>
      obtain rfl := Except.error.inj hr
      exact (ih rfl).head .operand
  | left _ ih => exact (ih hr).head .left
  | @binary stack op left right q r hl _ _ ihr =>
    cases r with
    | ok v => exact .inl (isArithmetic_of_apply hr)
    | error g =>
      obtain rfl := Except.error.inj hr
      exact (ihr rfl).head (.right hl)

/-- A reference to a cell makes no complaint but one about a cell. -/
theorem cellLabel?_of_evaluates {complaint : EvalError}
    (h : c.Evaluates store stack (.cell label) (.error (.eval complaint))) :
    ∃ inner, complaint.cellLabel? = some inner := by
  generalize hr : Except.error (Failure.eval complaint) = r at h
  cases h with
  | unresolved =>
    cases hr
    exact ⟨_, rfl⟩
  | invalid =>
    cases hr
    exact ⟨_, rfl⟩
  | @circular _ _ a =>
    rcases circularFailure_cases (upper label) stack a with ⟨path, -, hpath⟩ | ⟨cause, -, hcause⟩
    · rw [hpath] at hr
      cases hr
      exact ⟨_, rfl⟩
    · rw [hcause] at hr
      cases hr
  | unusable _ _ hf =>
    obtain rfl := Except.error.inj hr
    obtain ⟨e, inner, he, hinner⟩ := isAboutCell_of_isUnusable (isUnusable_of_formula hf)
    cases he
    exact ⟨inner, hinner⟩
  | @cell _ _ _ _ r =>
    cases r with
    | ok v => cases hr
    | error g => exact cellLabel?_of_cellFailure (Except.error.inj hr).symm

/-- A chain that comes back to a cell under evaluation fails with the complaint about the circle. -/
theorem evaluates_of_comesBack (h : c.ComesBack store p stack label a) :
    c.Evaluates store p.1 p.2 (.error (circularFailure (upper label) stack a)) := by
  obtain ⟨hreached, ha, hs⟩ := h
  induction hreached using Relation.ReflTransGen.head_induction_on with
  | refl => exact .circular ha hs
  | head hcall _ ih =>
    -- Each caller hands the complaint on.
    cases hcall with
    | operand => exact .signed ih
    | left => exact .left ih
    | right hl => exact .binary hl ih
    | @cell _ other _ _ hother hfree hf =>
      have hpassed := cellFailure_circularFailure (upper other) (upper label) stack a
      exact hpassed ▸ .cell hother hfree hf ih

/-- Whatever the cells hold and their addresses are, a reference to a cell fails with a complaint
about a cell, unless the arithmetic breaks down, or the path of a circle does at a column without a
label. A chain that comes back to a cell under evaluation fails with the complaint about the circle,
if all columns on the way have labels. -/
theorem failure_of_cell (c : Cells) (store : Store) (label : String) :
    (∀ f, c.Evaluates store [] (.cell label) (.error f) →
      f.IsAboutCell ∨ f = .fault .overflow ∨ f = .fault .zeroDivision ∨
        ∃ cause stack inner a, f = .fault (.column cause) ∧
          c.ComesBack store ([], .cell label) stack inner a ∧ ∃ b ∈ stack, ¬ b.HasColumn) ∧
    (∀ stack inner a, c.ComesBack store ([], .cell label) stack inner a →
      c.Evaluates store [] (.cell label) (.error (circularFailure (upper inner) stack a)) ∧
      ((∀ b ∈ stack, b.HasColumn) →
        ∃ path, circularFailure (upper inner) stack a = .eval (.circular (upper inner) path))) ∧
    ∀ sheet : Sheet, sheet.read = c.read →
      c.Evaluates store [] (.cell label) (Scope.eval ⟨store, sheet, c.addresses⟩ (.cell label)) := by
  refine ⟨fun f h => ?_, fun stack inner a hback =>
    ⟨evaluates_of_comesBack hback, circularFailure_of_hasColumn (upper inner) hback.again⟩,
    fun sheet hread => (evaluates_sheet_iff hread).2 rfl⟩
  rcases accounts_of_evaluates h rfl with harith | hcell | ⟨stack, inner, a, cause, hback, hcause, rfl⟩
  · cases harith with
    | mistake he =>
      obtain ⟨inner, hinner⟩ := cellLabel?_of_evaluates h
      exact .inl ⟨_, inner, rfl, hinner⟩
    | overflow => exact .inr (.inl rfl)
    | zeroDivision => exact .inr (.inr (.inl rfl))
  · exact .inl hcell
  · refine .inr (.inr (.inr ⟨cause, stack, inner, a, rfl, hback, ?_⟩))
    by_contra hcolumns
    push Not at hcolumns
    obtain ⟨path, hpath⟩ := circularFailure_of_hasColumn (upper inner) hback.again hcolumns
    cases hpath.symm.trans hcause

/-- The second cell writes the label of the first one with a small letter. -/
theorem failure_of_cell_mutualScope :
    mutualScope.cells.ComesBack .empty ([], .cell "A1") [⟨0, 1⟩, ⟨0, 0⟩] "a1" ⟨0, 0⟩ ∧
      mutualScope.eval (.cell "A1") = .error (.eval (.circular "A1" ["A1", "B1", "A1"])) := by
  obtain ⟨hcall, hback⟩ := calls_mutualScope
  have hcircle : mutualScope.cells.ComesBack .empty ([], .cell "A1") [⟨0, 1⟩, ⟨0, 0⟩] "a1" ⟨0, 0⟩ :=
    ⟨.tail (.single hcall) hback, addresses_mutualScope.2.1, by decide⟩
  obtain ⟨hvalue, -⟩ := (failure_of_cell mutualScope.cells .empty "A1").2.1 _ _ _ hcircle
  have hpath : ([⟨0, 1⟩, ⟨0, 0⟩].reverse ++ [⟨0, 0⟩] : List Address).mapM Address.label =
      .ok ["A1", "B1", "A1"] := by decide +kernel
  have hlabel : upper "a1" = "A1" := by decide +kernel
  rw [hlabel, circularFailure, hpath] at hvalue
  exact ⟨hcircle, evaluates_eval_iff.1 hvalue⟩

def outerScope : Scope := ⟨.empty, .ofCells [(⟨0, -1⟩, .ok "A1")], fun _ => .ok (some ⟨0, -1⟩)⟩

/-- The complaint about the circle cannot be written, and what comes out is no complaint about a
cell. -/
theorem eval_outerScope :
    outerScope.cells.ComesBack .empty ([], .cell "A1") [⟨0, -1⟩] "A1" ⟨0, -1⟩ ∧
      outerScope.eval (.cell "A1") = .error (.fault (.column (.negative (-1)))) ∧
      ¬ Failure.IsAboutCell (.fault (.column (.negative (-1)))) := by
  have hformula : outerScope.cells.formula (upper "A1") ⟨0, -1⟩ = .ok ⟨none, .cell "A1"⟩ := by
    have hstrays : (lex (cellText "A1")).strays = [] := by decide +kernel
    have htokens : (lex (cellText "A1")).tokens = [⟨.cellRef, "A1", 0⟩] := by decide +kernel
    exact Cells.formula_of_primary rfl hstrays htokens rfl (.cell rfl)
  have hcircle : outerScope.cells.ComesBack .empty ([], .cell "A1") [⟨0, -1⟩] "A1" ⟨0, -1⟩ :=
    ⟨.single (.cell rfl List.not_mem_nil hformula), rfl, List.mem_singleton_self _⟩
  have hpath : ([⟨0, -1⟩].reverse ++ [⟨0, -1⟩] : List Address).mapM Address.label =
      .error (.negative (-1)) := by decide +kernel
  have hvalue := evaluates_of_comesBack hcircle
  rw [circularFailure, hpath] at hvalue
  refine ⟨hcircle, evaluates_eval_iff.1 hvalue, ?_⟩
  rintro ⟨e, label, he, -⟩
  cases he

end

end UnitSheet
