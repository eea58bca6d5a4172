import UnitSheet.Evaluation
import UnitSheet.Steps

set_option autoImplicit false

namespace UnitSheet

inductive Failure.IsArithmetic : Failure → Prop
  | mistake {e : EvalError} : e.cellLabel? = none → IsArithmetic (.eval e)
  | overflow : IsArithmetic (.fault .overflow)
  | zeroDivision : IsArithmetic (.fault .zeroDivision)

theorem isArithmetic_of_mismatch (m : UnitMismatch) : (Failure.mismatch m).IsArithmetic := .mistake rfl

theorem isArithmetic_of_factorPower {x : Float} {n : Int} {fault : Fault}
    (h : factorPower x n = .error fault) : (Failure.fault fault).IsArithmetic := by
  unfold factorPower at h
  dsimp only at h
  split at h
  · obtain rfl := Except.error.inj h
    exact .overflow
  · split at h
    · cases h
    · obtain rfl := Except.error.inj h
      exact .zeroDivision
    · obtain rfl := Except.error.inj h
      exact .overflow

theorem isArithmetic_of_applyPart {label : String} {unit : UnitDef} {part : List Char × Int}
    {f : Failure} (h : applyPart label unit part = .error f) : f.IsArithmetic := by
  unfold applyPart at h
  split at h
  · obtain rfl := Except.error.inj h
    exact .mistake rfl
  · split at h
    · obtain rfl := Except.error.inj h
      exact .mistake rfl
    · split at h
      · rename_i hfactor
        obtain rfl := Except.error.inj h
        exact isArithmetic_of_factorPower hfactor
      · split at h
        · obtain rfl := Except.error.inj h
          exact .overflow
        · cases h

theorem isArithmetic_of_foldlM_applyPart {label : String} {parts : List (List Char × Int)}
    {unit : UnitDef} {f : Failure} (h : parts.foldlM (applyPart label) unit = .error f) :
    f.IsArithmetic := by
  induction parts generalizing unit with
  | nil => cases h
  | cons part parts ih =>
    rw [List.foldlM_cons] at h
    cases hpart : applyPart label unit part with
    | error g =>
      rw [hpart] at h
      obtain rfl := Except.error.inj h
      exact isArithmetic_of_applyPart hpart
    | ok unit' =>
      rw [hpart] at h
      exact ih h

theorem isArithmetic_of_resolveUnit {label : String} {f : Failure}
    (h : resolveUnit label = .error f) : f.IsArithmetic := by
  unfold resolveUnit at h
  split at h
  · cases h
  · split at h
    · obtain rfl := Except.error.inj h
      exact .mistake rfl
    · split at h
      · rename_i hfold
        obtain rfl := Except.error.inj h
        exact isArithmetic_of_foldlM_applyPart hfold
      · cases h

theorem isArithmetic_of_ofUnit {value : Float} {unit : Option String} {f : Failure}
    (h : Quantity.ofUnit value unit = .error f) : f.IsArithmetic := by
  unfold Quantity.ofUnit at h
  split at h
  · cases h
  · split at h
    · rename_i hunit
      obtain rfl := Except.error.inj h
      exact isArithmetic_of_resolveUnit hunit
    · cases h

theorem isArithmetic_of_evalName {store : Store} {n : String} {f : Failure}
    (h : store.evalName n = .error f) : f.IsArithmetic := by
  unfold Store.evalName at h
  split at h
  · cases h
  · split at h
    · exact isArithmetic_of_ofUnit h
    · obtain rfl := Except.error.inj h
      exact .mistake rfl

theorem isArithmetic_of_withProductUnit {sign : Int} {q r : Quantity} {x : Float} {d : Dims}
    {f : Failure} (h : q.withProductUnit sign r x d = .error f) : f.IsArithmetic := by
  unfold Quantity.withProductUnit at h
  split at h
  · cases h
  · split at h
    · obtain rfl := Except.error.inj h
      exact .mistake rfl
    · cases h

theorem isArithmetic_of_powerMagnitude {base exponent : Float} {e : EvalError}
    (h : Quantity.powerMagnitude base exponent = .error e) : (Failure.eval e).IsArithmetic := by
  unfold Quantity.powerMagnitude at h
  split at h
  · obtain rfl := Except.error.inj h
    exact .mistake rfl
  · obtain rfl := Except.error.inj h
    exact .mistake rfl
  · obtain rfl := Except.error.inj h
    exact .mistake rfl
  · split at h
    · obtain rfl := Except.error.inj h
      exact .mistake rfl
    · cases h

theorem isArithmetic_of_power {q r : Quantity} {f : Failure} (h : q.power r = .error f) :
    f.IsArithmetic := by
  unfold Quantity.power at h
  dsimp only at h
  split at h
  · obtain rfl := Except.error.inj h
    exact isArithmetic_of_mismatch _
  · split at h
    · obtain rfl := Except.error.inj h
      exact .mistake rfl
    · split at h
      · obtain rfl := Except.error.inj h
        exact isArithmetic_of_mismatch _
      · split at h
        · obtain rfl := Except.error.inj h
          exact .mistake rfl
        · split at h
          · rename_i e he
            obtain rfl := Except.error.inj h
            exact isArithmetic_of_powerMagnitude he
          · split at h
            · cases h
            · split at h
              · obtain rfl := Except.error.inj h
                exact .overflow
              · split at h
                · obtain rfl := Except.error.inj h
                  exact .mistake rfl
                · cases h

theorem isArithmetic_of_apply {op : BinaryOp} {q r : Quantity} {f : Failure}
    (h : op.apply q r = .error f) : f.IsArithmetic := by
  unfold BinaryOp.apply at h
  split at h
  · unfold Quantity.add at h
    split at h
    · cases h
    · obtain rfl := Except.error.inj h
      exact isArithmetic_of_mismatch _
  · unfold Quantity.subtract at h
    split at h
    · cases h
    · obtain rfl := Except.error.inj h
      exact isArithmetic_of_mismatch _
  · exact isArithmetic_of_withProductUnit h
  · unfold Quantity.divide at h
    split at h
    · obtain rfl := Except.error.inj h
      exact .mistake rfl
    · exact isArithmetic_of_withProductUnit h
  · exact isArithmetic_of_power h
  · obtain rfl := Except.error.inj h
    exact .mistake rfl

theorem isArithmetic_of_signApply {sign : SignOp} {q : Quantity} {f : Failure}
    (h : sign.apply q = .error f) : f.IsArithmetic := by
  unfold SignOp.apply at h
  split at h
  · cases h
  · cases h
  · obtain rfl := Except.error.inj h
    exact .mistake rfl

inductive Failure.IsUnusable (label : String) : Failure → Prop
  | unreadable {reason : String} : IsUnusable label (.eval (.cellUnreadable label reason))
  | empty : IsUnusable label (.eval (.cellEmpty label))
  | stray {cause : StrayChar} : IsUnusable label (.eval (.cellStray label cause))
  | malformed {cause : ParseError} : IsUnusable label (.eval (.cellMalformed label cause))

theorem isUnusable_of_formula {sheet : Sheet} {label : String} {a : Address} {f : Failure}
    (h : sheet.formula label a = .error f) : f.IsUnusable label := by
  unfold Sheet.formula at h
  split at h
  · obtain rfl := Except.error.inj h
    exact .unreadable
  · split at h
    · obtain rfl := Except.error.inj h
      exact .empty
    · dsimp only at h
      split at h
      · obtain rfl := Except.error.inj h
        exact .stray
      · split at h
        · obtain rfl := Except.error.inj h
          exact .malformed
        · cases h

/-- An expression fails as its arithmetic or one of its cells does. -/
theorem failure_of_evalWith {store : Store} {cell : String → Except Failure Quantity} {e : Expr}
    {f : Failure} (h : e.evalWith store cell = .error f) :
    f.IsArithmetic ∨ ∃ label, Reference.cell label ∈ e.references ∧ cell label = .error f := by
  induction e with
  | literal value unit => exact .inl (isArithmetic_of_ofUnit h)
  | name n => exact .inl (isArithmetic_of_evalName h)
  | cell label => exact .inr ⟨label, List.mem_singleton_self _, h⟩
  | signed sign operand ih =>
    simp only [Expr.evalWith] at h
    split at h
    · rename_i g hg
      obtain rfl := Except.error.inj h
      exact ih hg
    · exact .inl (isArithmetic_of_signApply h)
  | binary op left right ihl ihr =>
    simp only [Expr.evalWith] at h
    split at h
    · rename_i g hg
      obtain rfl := Except.error.inj h
      exact (ihl hg).imp_right fun ⟨label, hmem, hc⟩ => ⟨label, List.mem_append_left _ hmem, hc⟩
    · split at h
      · rename_i g hg
        obtain rfl := Except.error.inj h
        exact (ihr hg).imp_right fun ⟨label, hmem, hc⟩ => ⟨label, List.mem_append_right _ hmem, hc⟩
      · exact .inl (isArithmetic_of_apply h)

end UnitSheet
