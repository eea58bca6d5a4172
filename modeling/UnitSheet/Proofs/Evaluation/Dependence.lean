import UnitSheet.Proofs.Evaluation.Rules
import UnitSheet.Proofs.Token.Spelling

set_option autoImplicit false

namespace UnitSheet

/-- The expression is the other one, or the references of its formulas lead there from cell to
cell. -/
inductive Cells.LeadsTo (c : Cells) : Expr → Expr → Prop
  | refl {e : Expr} : c.LeadsTo e e
  | cell {e e' : Expr} {label : String} {a : Address} {statement : Statement} :
      Reference.cell label ∈ e.references → c.addresses (upper label) = .ok (some a) →
        c.formula (upper label) a = .ok statement → c.LeadsTo statement.expr e' → c.LeadsTo e e'

def Cells.Uses (c : Cells) (e : Expr) (n : String) : Prop :=
  ∃ e', c.LeadsTo e e' ∧ Reference.name n ∈ e'.references

section
variable {c : Cells} {store store' : Store} {stack : List Address} {e e' : Expr} {n : String}
  {v : Quantity}

theorem Cells.Uses.mono (h : c.Uses e n) (hsub : e.references ⊆ e'.references) : c.Uses e' n := by
  obtain ⟨target, hleads, hname⟩ := h
  cases hleads with
  | refl => exact ⟨e', .refl, hsub hname⟩
  | cell hmem ha hf hleads => exact ⟨target, .cell (hsub hmem) ha hf hleads, hname⟩

theorem Cells.Uses.of_cell {label : String} {a : Address} {statement : Statement}
    (ha : c.addresses (upper label) = .ok (some a))
    (hf : c.formula (upper label) a = .ok statement) (h : c.Uses statement.expr n) :
    c.Uses (.cell label) n := by
  obtain ⟨target, hleads, hname⟩ := h
  exact ⟨target, .cell (List.mem_singleton_self _) ha hf hleads, hname⟩

theorem evalName_of_agree (h : store.value? n = store'.value? n) (hv : store.evalName n = .ok v) :
    store'.evalName n = .ok v := by
  unfold Store.evalName at hv ⊢
  rw [← h]
  cases hvalue : store.value? n with
  | some q => rwa [hvalue] at hv
  | none =>
    rw [hvalue] at hv
    dsimp only at hv ⊢
    split at hv
    · rename_i hunit
      rwa [if_pos hunit]
    · cases hv

/-- A value is carried from one store to another one with the same values under the names that are
used. -/
theorem evaluates_of_agree {r : Except Failure Quantity} (h : c.Evaluates store stack e r)
    (hr : r = .ok v) (hagree : ∀ n, c.Uses e n → store.value? n = store'.value? n) :
    c.Evaluates store' stack e (.ok v) := by
  induction h generalizing v with
  | literal => exact hr ▸ .literal
  | @name stack n =>
    have hself : c.Uses (.name n) n := ⟨_, .refl, List.mem_singleton_self _⟩
    exact evalName_of_agree (hagree n hself) hr ▸ .name
  | unresolved => cases hr
  | invalid => cases hr
  | circular => cases hr
  | unusable => cases hr
  | @cell stack label a statement r ha hs hf _ ih =>
    cases r with
    | error f => cases hr
    | ok w =>
      obtain rfl := Except.ok.inj hr
      exact .cell ha hs hf (ih rfl fun n hn => hagree n (hn.of_cell ha hf))
  | @signed stack sign operand r _ ih =>
    cases r with
    | error f => cases hr
    | ok w => exact hr ▸ .signed (ih rfl fun n hn => hagree n (hn.mono fun _ h => h))
  | left => cases hr
  | @binary stack op left right q r _ _ ihl ihr =>
    have hl := ihl rfl fun n hn => hagree n (hn.mono (List.subset_append_left _ _))
    cases r with
    | error f => cases hr
    | ok w =>
      exact hr ▸ .binary hl (ihr rfl fun n hn => hagree n (hn.mono (List.subset_append_right _ _)))

/-- Whatever the cells hold, two stores give an expression the same value, or none, if they agree on
the names in the expression and in the formulas that it leads to. -/
theorem value_of_agree (h : ∀ n, c.Uses e n → store.value? n = store'.value? n) (v : Quantity) :
    (c.Evaluates store [] e (.ok v) ↔ c.Evaluates store' [] e (.ok v)) ∧
    ∀ sheet : Sheet, sheet.read = c.read →
      (Scope.eval ⟨store, sheet, c.addresses⟩ e = .ok v ↔
        Scope.eval ⟨store', sheet, c.addresses⟩ e = .ok v) := by
  have hvalue : c.Evaluates store [] e (.ok v) ↔ c.Evaluates store' [] e (.ok v) :=
    ⟨fun hv => evaluates_of_agree hv rfl h, fun hv => evaluates_of_agree hv rfl fun n hn => (h n hn).symm⟩
  refine ⟨hvalue, fun sheet hread => ?_⟩
  rw [← evaluates_sheet_iff hread, ← evaluates_sheet_iff hread]
  exact hvalue

end

def riseCells : Cells := ⟨fun _ => .ok "rise", .standard⟩

theorem formula_riseCells (label : String) (a : Address) :
    riseCells.formula label a = .ok ⟨none, .name "rise"⟩ := by
  have hstrays : (lex (cellText "rise")).strays = [] := by decide +kernel
  have htokens : (lex (cellText "rise")).tokens = [⟨.identifier, "rise", 0⟩] := by decide +kernel
  exact Cells.formula_of_primary rfl hstrays htokens rfl (.name rfl)

theorem uses_riseCells {n : String}
    (h : riseCells.Uses (.binary .add (.name "run") (.cell "Z9")) n) : n = "run" ∨ n = "rise" := by
  obtain ⟨e, hleads, hname⟩ := h
  cases hleads with
  | refl => exact .inl (by simpa [Expr.references] using hname)
  | @cell _ _ label a statement _ _ hf hleads =>
    obtain rfl := Except.ok.inj ((formula_riseCells (upper label) a).symm.trans hf)
    cases hleads with
    | refl => exact .inr (by simpa [Expr.references] using hname)
    | cell hmem => simp [Expr.references] at hmem

def stairNames : Store := (Store.define .empty "run" (.scalar 1) "1").define "rise" (.scalar 2) "2"

def otherNames : Store :=
  ((Store.define .empty "rise" (.scalar 2) "7").define "ruse" (.scalar 5) "7").define "run" (.scalar 1)
    "8"

theorem value_of_agree_riseCells :
    (∀ n, riseCells.Uses (.binary .add (.name "run") (.cell "Z9")) n →
      stairNames.value? n = otherNames.value? n) ∧
    ∃ v, riseCells.Evaluates stairNames [] (.binary .add (.name "run") (.cell "Z9")) (.ok v) ∧
      riseCells.Evaluates otherNames [] (.binary .add (.name "run") (.cell "Z9")) (.ok v) := by
  have hagree : ∀ n, riseCells.Uses (.binary .add (.name "run") (.cell "Z9")) n →
      stairNames.value? n = otherNames.value? n := by
    intro n hn
    rcases uses_riseCells hn with rfl | rfl <;> rfl
  have hread : Address.ofText? (upper "Z9") = some ⟨8, 25⟩ := by decide +kernel
  have haddress : riseCells.addresses (upper "Z9") = .ok (some ⟨8, 25⟩) := congrArg Except.ok hread
  have hrun : riseCells.Evaluates stairNames [] (.name "run") (.ok (.scalar 1)) := .name
  have hrise : riseCells.Evaluates stairNames [] (.cell "Z9") (.ok (.scalar 2)) :=
    .cell haddress List.not_mem_nil (formula_riseCells _ _) .name
  obtain ⟨v, hsum⟩ : ∃ v, BinaryOp.add.apply (.scalar 1) (.scalar 2) = .ok v := ⟨_, rfl⟩
  have hv : riseCells.Evaluates stairNames [] (.binary .add (.name "run") (.cell "Z9")) (.ok v) :=
    hsum ▸ .binary hrun hrise
  exact ⟨hagree, v, hv, (value_of_agree hagree v).1.1 hv⟩

end UnitSheet
