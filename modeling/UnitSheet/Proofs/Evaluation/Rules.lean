import UnitSheet.Proofs.Evaluation.Reference

set_option autoImplicit false

/-!
Evaluation by rules, where any number of cells may have a text. On a sheet, whose texts are finitely
many, every evaluation has an outcome; where they are not, it may go on for ever, and then no rule
gives it one. The rules and the evaluator agree on every sheet.
-/

namespace UnitSheet

/-- What cell labels mean: the cells that they lead to, and what every cell answers. -/
structure Cells where
  read : Address → Except String String
  addresses : AddressReader

def Scope.cells (s : Scope) : Cells := ⟨s.sheet.read, s.addresses⟩

/-- The formula in a cell; only the answer of the cell itself counts. -/
def Cells.formula (c : Cells) (label : String) (a : Address) : Except Failure Statement :=
  (Sheet.ofCells [(a, c.read a)]).formula label a

theorem Cells.formula_eq_ok_iff {c : Cells} {label text : String} {a : Address}
    {statement : Statement} (h : c.read a = .ok text) : c.formula label a = .ok statement ↔
      (lex (cellText text)).strays = [] ∧
        Grammar.parse (lex (cellText text)).tokens = .ok statement := by
  refine UnitSheet.formula_eq_ok_iff ?_
  simp [Sheet.ofCells, h]

theorem Cells.formula_of_primary {c : Cells} {label text : String} {a : Address} {t : Token}
    {e : Expr} (hread : c.read a = .ok text) (hstrays : (lex (cellText text)).strays = [])
    (htokens : (lex (cellText text)).tokens = [t]) (hkind : t.kind.isWhitespace = false)
    (h : Grammar.Derives .primary [t] e) : c.formula label a = .ok ⟨none, e⟩ := by
  have hsignificant : Token.significant [t] = [t] := by simp [Token.significant, hkind]
  refine (Cells.formula_eq_ok_iff hread).2 ⟨hstrays, Grammar.parse_eq_ok_iff.2 ?_⟩
  rw [htokens, hsignificant]
  exact .formula (.sumOfProduct (.productOfPower (.powerOfSigned (.signedOfPrimary h))))

/-- The outcome of an expression while the cells of the stack are under evaluation. -/
inductive Cells.Evaluates (c : Cells) (store : Store) :
    List Address → Expr → Except Failure Quantity → Prop
  | literal {stack : List Address} {value : Float} {unit : Option String} :
      c.Evaluates store stack (.literal value unit) (Quantity.ofUnit value unit)
  | name {stack : List Address} {n : String} :
      c.Evaluates store stack (.name n) (store.evalName n)
  | unresolved {stack : List Address} {label reason : String} :
      c.addresses (upper label) = .error reason →
        c.Evaluates store stack (.cell label)
          (.error (.eval (.cellUnresolved (upper label) reason)))
  | invalid {stack : List Address} {label : String} :
      c.addresses (upper label) = .ok none →
        c.Evaluates store stack (.cell label) (.error (.eval (.cellInvalid (upper label))))
  | circular {stack : List Address} {label : String} {a : Address} :
      c.addresses (upper label) = .ok (some a) → a ∈ stack →
        c.Evaluates store stack (.cell label) (.error (circularFailure (upper label) stack a))
  | unusable {stack : List Address} {label : String} {a : Address} {f : Failure} :
      c.addresses (upper label) = .ok (some a) → a ∉ stack →
        c.formula (upper label) a = .error f → c.Evaluates store stack (.cell label) (.error f)
  | cell {stack : List Address} {label : String} {a : Address} {statement : Statement}
      {r : Except Failure Quantity} :
      c.addresses (upper label) = .ok (some a) → a ∉ stack →
        c.formula (upper label) a = .ok statement →
          c.Evaluates store (a :: stack) statement.expr r →
            c.Evaluates store stack (.cell label) (r.mapError (cellFailure (upper label)))
  | signed {stack : List Address} {sign : SignOp} {operand : Expr} {r : Except Failure Quantity} :
      c.Evaluates store stack operand r →
        c.Evaluates store stack (.signed sign operand) (r.bind sign.apply)
  | left {stack : List Address} {op : BinaryOp} {left right : Expr} {f : Failure} :
      c.Evaluates store stack left (.error f) →
        c.Evaluates store stack (.binary op left right) (.error f)
  | binary {stack : List Address} {op : BinaryOp} {left right : Expr} {q : Quantity}
      {r : Except Failure Quantity} :
      c.Evaluates store stack left (.ok q) → c.Evaluates store stack right r →
        c.Evaluates store stack (.binary op left right) (r.bind (op.apply q))

/-- Evaluating the first expression under the first stack, the evaluator calls itself on the second
expression under the second stack. -/
inductive Cells.Calls (c : Cells) (store : Store) :
    List Address × Expr → List Address × Expr → Prop
  | operand {stack : List Address} {sign : SignOp} {operand : Expr} :
      c.Calls store (stack, .signed sign operand) (stack, operand)
  | left {stack : List Address} {op : BinaryOp} {left right : Expr} :
      c.Calls store (stack, .binary op left right) (stack, left)
  | right {stack : List Address} {op : BinaryOp} {left right : Expr} {q : Quantity} :
      c.Evaluates store stack left (.ok q) →
        c.Calls store (stack, .binary op left right) (stack, right)
  | cell {stack : List Address} {label : String} {a : Address} {statement : Statement} :
      c.addresses (upper label) = .ok (some a) → a ∉ stack →
        c.formula (upper label) a = .ok statement →
          c.Calls store (stack, .cell label) (a :: stack, statement.expr)

section
variable {c : Cells} {store : Store} {stack : List Address} {e : Expr} {label : String}
  {a : Address} {r r' : Except Failure Quantity}

theorem Cells.Evaluates.unique (h : c.Evaluates store stack e r)
    (h' : c.Evaluates store stack e r') : r = r' := by
  -- The rules for a cell label exclude each other by its address, the stack and the formula.
  induction h generalizing r' with
  | literal =>
    cases h'
    rfl
  | name =>
    cases h'
    rfl
  | unresolved ha => cases h' <;> simp_all
  | invalid ha => cases h' <;> simp_all
  | circular ha hs => cases h' <;> simp_all
  | unusable ha hs hf => cases h' <;> simp_all
  | cell ha hs hf _ ih =>
    cases h' with
    | unresolved ha' => simp_all
    | invalid ha' => simp_all
    | circular ha' hs' => simp_all
    | unusable ha' hs' hf' => simp_all
    | cell ha' hs' hf' h' =>
      obtain rfl := Option.some.inj (Except.ok.inj (ha.symm.trans ha'))
      obtain rfl := Except.ok.inj (hf.symm.trans hf')
      rw [ih h']
  | signed _ ih =>
    cases h' with
    | signed h' => rw [ih h']
  | left _ ih =>
    cases h' with
    | left h' => exact ih h'
    | binary h' _ => cases ih h'
  | binary _ _ ihl ihr =>
    cases h' with
    | left h' => cases ihl h'
    | binary hl hr =>
      obtain rfl := Except.ok.inj (ihl hl)
      rw [ihr hr]

end

section
variable {c : Cells} {store : Store} {stack : List Address} {operand left right : Expr} {n : String}
  {sign : SignOp} {op : BinaryOp} {v : Quantity}

theorem evaluates_literal_ok_iff {x : Float} {unit : Option String} :
    c.Evaluates store stack (.literal x unit) (.ok v) ↔ Quantity.ofUnit x unit = .ok v :=
  ⟨fun h => Cells.Evaluates.unique .literal h, fun h => h ▸ .literal⟩

theorem evaluates_name_ok_iff :
    c.Evaluates store stack (.name n) (.ok v) ↔ store.evalName n = .ok v :=
  ⟨fun h => Cells.Evaluates.unique .name h, fun h => h ▸ .name⟩

theorem evaluates_signed_ok_iff : c.Evaluates store stack (.signed sign operand) (.ok v) ↔
    ∃ q, c.Evaluates store stack operand (.ok q) ∧ sign.apply q = .ok v := by
  constructor
  · intro h
    generalize hr : Except.ok v = r at h
    cases h with
    | @signed _ _ _ r h =>
      cases r with
      | error f => cases hr
      | ok q => exact ⟨q, h, rfl⟩
  · rintro ⟨q, hq, happly⟩
    exact happly ▸ .signed hq

theorem evaluates_binary_ok_iff : c.Evaluates store stack (.binary op left right) (.ok v) ↔
    ∃ q r, c.Evaluates store stack left (.ok q) ∧ c.Evaluates store stack right (.ok r) ∧
      op.apply q r = .ok v := by
  constructor
  · intro h
    generalize hr : Except.ok v = r at h
    cases h with
    | left => cases hr
    | @binary _ _ _ _ q r hl h =>
      cases r with
      | error f => cases hr
      | ok r => exact ⟨q, r, hl, h, rfl⟩
  · rintro ⟨q, r, hl, hr, happly⟩
    exact happly ▸ .binary hl hr

end

theorem evalWith_signed (store : Store) (cell : String → Except Failure Quantity) (sign : SignOp)
    (operand : Expr) : (Expr.signed sign operand).evalWith store cell =
      (operand.evalWith store cell).bind sign.apply := by
  rw [Expr.evalWith]
  cases operand.evalWith store cell <;> rfl

theorem evalWith_binary (store : Store) (cell : String → Except Failure Quantity) (op : BinaryOp)
    (left right : Expr) : (Expr.binary op left right).evalWith store cell =
      (left.evalWith store cell).bind fun l => (right.evalWith store cell).bind (op.apply l) := by
  rw [Expr.evalWith]
  cases left.evalWith store cell with
  | error failure => rfl
  | ok l => cases right.evalWith store cell <;> rfl

section
variable {s : Scope} {stack : List Address} {e : Expr} {r : Except Failure Quantity}

theorem formula_cells (s : Scope) (label : String) (a : Address) :
    s.cells.formula label a = s.sheet.formula label a := by
  have hread : (Sheet.ofCells [(a, s.sheet.read a)]).read a = s.sheet.read a := by
    simp [Sheet.ofCells]
  unfold Cells.formula Sheet.formula
  rw [Scope.cells, hread]

theorem evaluates_of_cells
    (hcell : ∀ label, s.cells.Evaluates s.store stack (.cell label) (s.evalCell stack label))
    (e : Expr) : s.cells.Evaluates s.store stack e (e.evalWith s.store (s.evalCell stack)) := by
  induction e with
  | literal value unit => exact .literal
  | name n => exact .name
  | cell label => exact hcell label
  | signed sign operand ih =>
    rw [evalWith_signed]
    exact .signed ih
  | binary op left right ihl ihr =>
    rw [evalWith_binary]
    cases hl : left.evalWith s.store (s.evalCell stack) with
    | error f => exact .left (hl ▸ ihl)
    | ok q => exact .binary (hl ▸ ihl) ihr

theorem evaluates_evalCell (s : Scope) (stack : List Address) (label : String) :
    s.cells.Evaluates s.store stack (.cell label) (s.evalCell stack label) := by
  -- The induction is on the cells that are free, as that of the evaluator.
  rw [evalCell_eq]
  cases ha : s.addresses (upper label) with
  | error reason => exact .unresolved ha
  | ok found =>
    cases found with
    | none => exact .invalid ha
    | some a =>
      dsimp only
      by_cases hs : a ∈ stack
      · rw [if_pos hs]
        exact .circular ha hs
      · rw [if_neg hs]
        cases hf : s.sheet.formula (upper label) a with
        | error f => exact .unusable ha hs ((formula_cells s (upper label) a).trans hf)
        | ok statement =>
          have hfree : (s.sheet.free (a :: stack)).length < (s.sheet.free stack).length :=
            Sheet.free_cons_lt (Sheet.mem_occupied_of_formula hf) (by simpa using hs)
          exact .cell ha hs ((formula_cells s (upper label) a).trans hf)
            (evaluates_of_cells (evaluates_evalCell s (a :: stack)) statement.expr)
termination_by (s.sheet.free stack).length

/-- On a sheet the rules lead to what the evaluator gives, and to nothing else. -/
theorem evaluates_iff :
    s.cells.Evaluates s.store stack e r ↔ e.evalWith s.store (s.evalCell stack) = r := by
  have hvalue := evaluates_of_cells (evaluates_evalCell s stack) e
  constructor
  · exact hvalue.unique
  · rintro rfl
    exact hvalue

theorem evaluates_eval_iff : s.cells.Evaluates s.store [] e r ↔ s.eval e = r := evaluates_iff

theorem evaluates_sheet_iff {c : Cells} {store : Store} {sheet : Sheet} (h : sheet.read = c.read) :
    c.Evaluates store [] e r ↔ Scope.eval ⟨store, sheet, c.addresses⟩ e = r := by
  have hcells : (⟨store, sheet, c.addresses⟩ : Scope).cells = c := by rw [Scope.cells, h]
  rw [← evaluates_eval_iff, hcells]

end

end UnitSheet
