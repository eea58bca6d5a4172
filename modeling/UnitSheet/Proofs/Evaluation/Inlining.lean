import UnitSheet.Proofs.Evaluation.Dependence
import UnitSheet.Proofs.Store

set_option autoImplicit false

namespace UnitSheet

def Expr.substitute (body : Expr) (n : String) (e : Expr) : Expr :=
  match body with
  | literal value unit => literal value unit
  | name other => if other = n then e else name other
  | cell label => cell label
  | signed sign operand => signed sign (operand.substitute n e)
  | binary op left right => binary op (left.substitute n e) (right.substitute n e)

/-- The name stands in a formula that the cell labels of the expression lead to. -/
def Cells.UsesBehind (c : Cells) (e : Expr) (n : String) : Prop :=
  ∃ label, Reference.cell label ∈ e.references ∧ c.Uses (.cell label) n

section
variable {c : Cells} {store : Store} {stack : List Address} {e body operand left right : Expr}
  {n label : String} {v w : Quantity}

theorem Cells.UsesBehind.mono (h : c.UsesBehind e n) (hsub : e.references ⊆ body.references) :
    c.UsesBehind body n := by
  obtain ⟨label, hmem, huses⟩ := h
  exact ⟨label, hsub hmem, huses⟩

/-- A name that the cells behind an expression do not use may have any value for its labels. -/
theorem evaluates_cell_define_iff {owner : String} (h : ¬ c.Uses (.cell label) n) :
    c.Evaluates (store.define n v owner) stack (.cell label) (.ok w) ↔
      c.Evaluates store stack (.cell label) (.ok w) := by
  have hagree : ∀ other, c.Uses (.cell label) other →
      (store.define n v owner).value? other = store.value? other := by
    intro other hother
    rw [Store.value?_define, if_neg]
    rintro rfl
    exact h hother
  exact ⟨fun hw => evaluates_of_agree hw rfl hagree,
    fun hw => evaluates_of_agree hw rfl fun other hother => (hagree other hother).symm⟩

theorem evaluates_name_substitute_iff {other owner : String}
    (he : c.Evaluates store stack e (.ok v)) :
    c.Evaluates (store.define n v owner) stack (.name other) (.ok w) ↔
      c.Evaluates store stack ((Expr.name other).substitute n e) (.ok w) := by
  rw [evaluates_name_ok_iff, evalName_eq_ok_iff, Store.value?_define, Expr.substitute]
  by_cases h : other = n
  · rw [if_pos h, if_pos h]
    constructor
    · rintro (hw | ⟨hnone, -⟩)
      · exact Option.some.inj hw ▸ he
      · cases hnone
    · intro hw
      exact .inl (congrArg some (Except.ok.inj (he.unique hw)))
  · rw [if_neg h, if_neg h, evaluates_name_ok_iff, evalName_eq_ok_iff]

theorem evaluates_substitute_iff {owner : String} (he : c.Evaluates store stack e (.ok v))
    (hcells : ¬ c.UsesBehind body n) :
    c.Evaluates (store.define n v owner) stack body (.ok w) ↔
      c.Evaluates store stack (body.substitute n e) (.ok w) := by
  induction body generalizing w with
  | literal x unit => rw [Expr.substitute, evaluates_literal_ok_iff, evaluates_literal_ok_iff]
  | name other => exact evaluates_name_substitute_iff he
  | cell label =>
    rw [Expr.substitute]
    exact evaluates_cell_define_iff fun h => hcells ⟨label, List.mem_singleton_self _, h⟩
  | signed sign operand ih =>
    have hoperand : ¬ c.UsesBehind operand n := fun h => hcells (h.mono fun _ hmem => hmem)
    simp only [Expr.substitute, evaluates_signed_ok_iff, ih hoperand]
  | binary op left right ihl ihr =>
    have hleft : ¬ c.UsesBehind left n := fun h =>
      hcells (h.mono (List.subset_append_left _ _))
    have hright : ¬ c.UsesBehind right n := fun h =>
      hcells (h.mono (List.subset_append_right _ _))
    simp only [Expr.substitute, evaluates_binary_ok_iff, ihl hleft, ihr hright]

/-- Whatever the cells hold, an expression under a definition has a value exactly if it has this value
with the defining expression in place of the name, provided that no formula in a cell behind it uses
the name. On a sheet, where every evaluation has an outcome, both have the same value or both fail. -/
theorem value_of_substitute (owner : String) (he : c.Evaluates store [] e (.ok v))
    (hcells : ¬ c.UsesBehind body n) :
    (∀ w, c.Evaluates (store.define n v owner) [] body (.ok w) ↔
      c.Evaluates store [] (body.substitute n e) (.ok w)) ∧
    ∀ sheet : Sheet, sheet.read = c.read →
      (∃ w, Scope.eval ⟨store.define n v owner, sheet, c.addresses⟩ body = .ok w ∧
        Scope.eval ⟨store, sheet, c.addresses⟩ (body.substitute n e) = .ok w) ∨
      ∃ f g, Scope.eval ⟨store.define n v owner, sheet, c.addresses⟩ body = .error f ∧
        Scope.eval ⟨store, sheet, c.addresses⟩ (body.substitute n e) = .error g := by
  have hvalue : ∀ w, c.Evaluates (store.define n v owner) [] body (.ok w) ↔
      c.Evaluates store [] (body.substitute n e) (.ok w) :=
    fun w => evaluates_substitute_iff he hcells
  refine ⟨hvalue, fun sheet hread => ?_⟩
  simp only [evaluates_sheet_iff hread] at hvalue
  cases hdefined : Scope.eval ⟨store.define n v owner, sheet, c.addresses⟩ body with
  | ok w => exact .inl ⟨w, rfl, (hvalue w).1 hdefined⟩
  | error f =>
    cases hinlined : Scope.eval ⟨store, sheet, c.addresses⟩ (body.substitute n e) with
    | ok w => cases hdefined.symm.trans ((hvalue w).2 hinlined)
    | error g => exact .inr ⟨f, g, rfl, rfl⟩

end

theorem not_usesBehind_riseCells :
    ¬ riseCells.UsesBehind (.binary .add (.name "run") (.cell "Z9")) "run" := by
  rintro ⟨label, -, e, hleads, hname⟩
  cases hleads with
  | refl => simp [Expr.references] at hname
  | @cell _ _ label a statement _ _ hf hleads =>
    obtain rfl := Except.ok.inj ((formula_riseCells (upper label) a).symm.trans hf)
    cases hleads with
    | refl => simp [Expr.references] at hname
    | cell hmem => simp [Expr.references] at hmem

/-- The expression of the definition uses the name itself, with its former value. -/
theorem value_of_substitute_riseCells :
    ∃ v w, riseCells.Evaluates stairNames [] (.binary .add (.name "run") (.name "rise")) (.ok v) ∧
      ¬ riseCells.UsesBehind (.binary .add (.name "run") (.cell "Z9")) "run" ∧
        riseCells.Evaluates (stairNames.define "run" v "3") []
          (.binary .add (.name "run") (.cell "Z9")) (.ok w) ∧
        riseCells.Evaluates stairNames []
          (.binary .add (.binary .add (.name "run") (.name "rise")) (.cell "Z9")) (.ok w) := by
  obtain ⟨v, hsum⟩ : ∃ v, BinaryOp.add.apply (.scalar 1) (.scalar 2) = .ok v := ⟨_, rfl⟩
  obtain ⟨w, htotal⟩ : ∃ w, BinaryOp.add.apply v (.scalar 2) = .ok w := by
    obtain rfl := Except.ok.inj hsum
    exact ⟨_, rfl⟩
  have hrun : riseCells.Evaluates stairNames [] (.name "run") (.ok (.scalar 1)) := .name
  have hrise : riseCells.Evaluates stairNames [] (.name "rise") (.ok (.scalar 2)) := .name
  have he : riseCells.Evaluates stairNames [] (.binary .add (.name "run") (.name "rise")) (.ok v) :=
    hsum ▸ .binary hrun hrise
  have hread : Address.ofText? (upper "Z9") = some ⟨8, 25⟩ := by decide +kernel
  have hcell : riseCells.Evaluates stairNames [] (.cell "Z9") (.ok (.scalar 2)) :=
    .cell (congrArg Except.ok hread) List.not_mem_nil (formula_riseCells _ _) .name
  have hinlined : riseCells.Evaluates stairNames []
      (.binary .add (.binary .add (.name "run") (.name "rise")) (.cell "Z9")) (.ok w) :=
    htotal ▸ .binary he hcell
  have hdefined := ((value_of_substitute "3" he not_usesBehind_riseCells).1 w).2 hinlined
  exact ⟨v, w, he, not_usesBehind_riseCells, hdefined, hinlined⟩

end UnitSheet
