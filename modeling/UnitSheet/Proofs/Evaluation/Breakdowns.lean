import UnitSheet.Proofs.Evaluation.Cycles
import UnitSheet.Proofs.Evaluation.Visits
import UnitSheet.Proofs.Line.Tiers

set_option autoImplicit false

namespace UnitSheet

/-- The evaluation of an expression breaks down, and that of none of its parts does. -/
inductive Scope.BreaksAt (s : Scope) (tier : Tier) (strict : Bool) (stack : List Address) :
    Expr → Fault → Prop
  | unit {x : Float} {label : String} {fault : Fault} :
      resolveUnit label = .error (.fault fault) →
        s.BreaksAt tier strict stack (.literal x (some label)) fault
  | exponent {left right : Expr} {q r : Quantity} {n : Binary} :
      tier = .full → s.valueAt tier strict stack left = .ok q →
        s.valueAt tier strict stack right = .ok r → Binary.ofFloat? r.magnitude = some n →
          isWordSized n.whole = false → q.power r = .error (.fault .overflow) →
            s.BreaksAt tier strict stack (.binary .pow left right) .overflow
  | cycle {label : String} {a : Address} {cause : ColumnError} :
      tier = .full → s.addresses (upper label) = .ok (some a) → a ∈ stack →
        circularFailure (upper label) stack a = .fault (.column cause) →
          s.BreaksAt tier strict stack (.cell label) (.column cause)

section
variable {q r : Quantity} {fault : Fault}

theorem power_eq_fault (h : q.power r = .error (.fault fault)) :
    fault = .overflow ∧ ∃ n, Binary.ofFloat? r.magnitude = some n ∧ isWordSized n.whole = false := by
  unfold Quantity.power at h
  dsimp only at h
  split at h
  · cases h
  · split at h
    · cases h
    · rename_i n hn
      split at h
      · cases h
      · split at h
        · cases h
        · split at h
          · cases h
          · split at h
            · cases h
            · split at h
              · rename_i hscale
                obtain rfl := Failure.fault.inj (Except.error.inj h)
                refine ⟨rfl, n, hn, ?_⟩
                unfold Dims.scale? at hscale
                split at hscale
                · cases hscale
                · rename_i hword
                  exact Bool.eq_false_iff.2 hword
              · split at h <;> cases h

theorem withProductUnit_ne_fault {sign : Int} {x : Float} {d : Dims} :
    q.withProductUnit sign r x d ≠ .error (.fault fault) := by
  intro h
  unfold Quantity.withProductUnit at h
  split at h
  · cases h
  · split at h <;> cases h

theorem apply_eq_fault {op : BinaryOp} (h : op.apply q r = .error (.fault fault)) :
    op = .pow ∧ q.power r = .error (.fault fault) := by
  cases op with
  | add =>
    simp only [BinaryOp.apply, Quantity.add] at h
    split at h <;> cases h
  | sub =>
    simp only [BinaryOp.apply, Quantity.subtract] at h
    split at h <;> cases h
  | mul => exact absurd h withProductUnit_ne_fault
  | div =>
    simp only [BinaryOp.apply, Quantity.divide] at h
    split at h
    · cases h
    · exact absurd h withProductUnit_ne_fault
  | pow => exact ⟨rfl, h⟩
  | other symbol => cases h

theorem signApply_ne_fault {sign : SignOp} : sign.apply q ≠ .error (.fault fault) := by
  cases sign <;> exact fun h => by cases h

theorem ofUnit_eq_fault {x : Float} {unit : Option String}
    (h : Quantity.ofUnit x unit = .error (.fault fault)) :
    ∃ label, unit = some label ∧ resolveUnit label = .error (.fault fault) := by
  unfold Quantity.ofUnit at h
  split at h
  · cases h
  · rename_i label
    split at h
    · rename_i failure hunit
      obtain rfl := Except.error.inj h
      exact ⟨label, rfl, hunit⟩
    · cases h

theorem evalName_ne_fault {store : Store} {n : String} :
    store.evalName n ≠ .error (.fault fault) := by
  intro h
  unfold Store.evalName at h
  split at h
  · cases h
  · split at h
    · rename_i hname
      obtain ⟨label, hlabel, hunit⟩ := ofUnit_eq_fault h
      obtain rfl := Option.some.inj hlabel
      obtain ⟨u, hu⟩ := Option.isSome_iff_exists.1 hname
      rw [resolveUnit, hu] at hunit
      cases hunit
    · cases h

end

section
variable {tier : Tier} {strict : Bool} {store : Store} {cell : String → Except Failure Quantity}
  {fault : Fault}

theorem Tier.value_signed_eq_fault {sign : SignOp} {operand : Expr}
    (h : tier.value strict store cell (.signed sign operand) = .error (.fault fault)) :
    tier.value strict store cell operand = .error (.fault fault) := by
  cases tier with
  | restricted => cases h
  | full =>
    simp only [Tier.value, Expr.evalWith] at h ⊢
    split at h
    · rename_i failure hfailure
      rwa [Except.error.inj h] at hfailure
    · exact absurd h signApply_ne_fault

theorem Tier.value_binary_eq_fault {op : BinaryOp} {left right : Expr}
    (h : tier.value strict store cell (.binary op left right) = .error (.fault fault)) :
    tier.value strict store cell left = .error (.fault fault) ∨
      ∃ q, tier.value strict store cell left = .ok q ∧
        (tier.value strict store cell right = .error (.fault fault) ∨
          ∃ r, tier.value strict store cell right = .ok r ∧ tier = .full ∧ op = .pow ∧
            q.power r = .error (.fault fault)) := by
  cases tier with
  | restricted =>
    simp only [Tier.value, Expr.evalRestricted] at h
    split at h
    · rename_i failure hfailure
      rw [Except.error.inj h] at hfailure
      exact .inl hfailure
    · rename_i q hq
      refine .inr ⟨q, hq, .inl ?_⟩
      split at h
      · rename_i failure hfailure
        rw [Except.error.inj h] at hfailure
        exact hfailure
      · rename_i r hr
        -- Behind the operands there are only complaints.
        split at h
        · rename_i failure hfailure
          obtain rfl := Except.error.inj h
          split at hfailure
          · unfold Quantity.ensureSameUnit at hfailure
            split at hfailure <;> cases hfailure
          · cases hfailure
        · split at h
          · have hadd : BinaryOp.add.apply q r = .error (.fault fault) := h
            cases (apply_eq_fault hadd).1
          · have hsub : BinaryOp.sub.apply q r = .error (.fault fault) := h
            cases (apply_eq_fault hsub).1
          · cases h
  | full =>
    simp only [Tier.value, Expr.evalWith] at h
    split at h
    · rename_i failure hfailure
      rw [Except.error.inj h] at hfailure
      exact .inl hfailure
    · rename_i q hq
      refine .inr ⟨q, hq, ?_⟩
      split at h
      · rename_i failure hfailure
        rw [Except.error.inj h] at hfailure
        exact .inl hfailure
      · rename_i r hr
        obtain ⟨hop, hpower⟩ := apply_eq_fault h
        exact .inr ⟨r, hr, rfl, hop, hpower⟩

end

section
variable {s : Scope} {tier : Tier} {strict : Bool} {stack stack' : List Address} {e e' : Expr}
  {label : String} {fault : Fault}

theorem evalCell_eq_fault (h : s.evalCell stack label = .error (.fault fault)) :
    ∃ a, s.addresses (upper label) = .ok (some a) ∧
      ((a ∈ stack ∧ circularFailure (upper label) stack a = .fault fault) ∨
        ∃ statement, a ∉ stack ∧ s.sheet.formula (upper label) a = .ok statement ∧
          statement.expr.evalWith s.store (s.evalCell (a :: stack)) = .error (.fault fault)) := by
  rw [evalCell_eq] at h
  split at h
  · cases h
  · cases h
  · rename_i a ha
    refine ⟨a, ha, ?_⟩
    split at h
    · rename_i hs
      exact .inl ⟨hs, Except.error.inj h⟩
    · rename_i hs
      split at h
      · rename_i failure hformula
        obtain rfl := Except.error.inj h
        cases isUnusable_of_formula hformula
      · rename_i statement hformula
        refine .inr ⟨statement, hs, hformula, ?_⟩
        cases hv : statement.expr.evalWith s.store (s.evalCell (a :: stack)) with
        | ok v =>
          rw [hv] at h
          cases h
        | error failure =>
          rw [hv] at h
          have hfault : cellFailure (upper label) failure = .fault fault := Except.error.inj h
          cases failure with
          | fault other => exact congrArg _ hfault
          | mistake error =>
            unfold cellFailure at hfault
            split at hfault
            · split at hfault <;> cases hfault
            · cases hfault

theorem circularFailure_eq_fault {a : Address}
    (h : circularFailure label stack a = .fault fault) : ∃ cause, fault = .column cause := by
  rcases circularFailure_cases label stack a with ⟨_, -, hpath⟩ | ⟨cause, -, hfault⟩
  · cases hpath.symm.trans h
  · exact ⟨cause, Failure.fault.inj (h.symm.trans hfault)⟩

theorem exists_breaksAt_of_cells
    (hcell : ∀ label, tier = .full → s.evalCell stack label = .error (.fault fault) →
      ∃ stack' e', s.Visits tier strict stack (.cell label) stack' e' ∧
        s.BreaksAt tier strict stack' e' fault)
    (h : s.valueAt tier strict stack e = .error (.fault fault)) :
    ∃ stack' e', s.Visits tier strict stack e stack' e' ∧
      s.BreaksAt tier strict stack' e' fault := by
  induction e with
  | literal x unit =>
    have hunit : Quantity.ofUnit x unit = .error (.fault fault) := by
      cases tier <;> exact h
    obtain ⟨label, rfl, hlabel⟩ := ofUnit_eq_fault hunit
    exact ⟨stack, _, .here, .unit hlabel⟩
  | name n =>
    cases tier with
    | restricted => cases h
    | full => exact absurd h evalName_ne_fault
  | cell label =>
    cases tier with
    | restricted => cases h
    | full => exact hcell label rfl h
  | signed sign operand ih =>
    obtain ⟨stack', e', hvisit, hbreak⟩ := ih (Tier.value_signed_eq_fault h)
    exact ⟨stack', e', .operand hvisit, hbreak⟩
  | binary op left right ihl ihr =>
    rcases Tier.value_binary_eq_fault h with hl | ⟨q, hq, hr | ⟨r, hr, htier, rfl, hpower⟩⟩
    · obtain ⟨stack', e', hvisit, hbreak⟩ := ihl hl
      exact ⟨stack', e', .left hvisit, hbreak⟩
    · obtain ⟨stack', e', hvisit, hbreak⟩ := ihr hr
      exact ⟨stack', e', .right hq hvisit, hbreak⟩
    · obtain ⟨rfl, n, hn, hword⟩ := power_eq_fault hpower
      exact ⟨stack, _, .here, .exponent htier hq hr hn hword hpower⟩

theorem exists_breaksAt_of_evalCell (stack : List Address) (label : String)
    (h : s.evalCell stack label = .error (.fault fault)) :
    ∃ stack' e', s.Visits .full strict stack (.cell label) stack' e' ∧
      s.BreaksAt .full strict stack' e' fault := by
  obtain ⟨a, ha, ⟨hs, hcircular⟩ | ⟨statement, hs, hformula, hv⟩⟩ := evalCell_eq_fault h
  · obtain ⟨cause, rfl⟩ := circularFailure_eq_fault hcircular
    exact ⟨stack, _, .here, .cycle rfl ha hs hcircular⟩
  · have hfree : (s.sheet.free (a :: stack)).length < (s.sheet.free stack).length :=
      Sheet.free_cons_lt (Sheet.mem_occupied_of_formula hformula) (by simpa using hs)
    have hinner : s.valueAt .full strict (a :: stack) statement.expr = .error (.fault fault) := hv
    obtain ⟨stack', e', hvisit, hbreak⟩ := exists_breaksAt_of_cells
      (fun inner _ => exists_breaksAt_of_evalCell (a :: stack) inner) hinner
    exact ⟨stack', e', .cell rfl ha hs hformula hvisit, hbreak⟩
termination_by (s.sheet.free stack).length

theorem valueAt_of_breaksAt (hsum : tier = .restricted → Grammar.LiteralSum e)
    (hvisit : s.Visits tier strict stack e stack' e') (hbreak : s.BreaksAt tier strict stack' e' fault) :
    s.valueAt tier strict stack e = .error (.fault fault) := by
  induction hvisit with
  | @here stack e =>
    cases hbreak with
    | @unit x label _ hunit =>
      have hvalue : Quantity.ofUnit x (some label) = .error (.fault fault) := by
        simp only [Quantity.ofUnit, hunit]
      cases tier <;> exact hvalue
    | exponent htier hl hr _ _ hpower =>
      subst htier
      simp only [Scope.valueAt, Tier.value] at hl hr ⊢
      simp only [Expr.evalWith, hl, hr]
      exact hpower
    | @cycle label a cause htier ha hs hcircular =>
      subst htier
      have hcell := evalCell_eq s stack label
      simp only [ha, hs, if_true, hcircular] at hcell
      exact hcell
  | @operand stack stack' sign operand e' _ ih =>
    cases tier with
    | restricted => cases hsum rfl
    | full =>
      have hv := ih (fun h => by cases h) hbreak
      simp only [Scope.valueAt, Tier.value] at hv ⊢
      simp only [Expr.evalWith, hv]
  | @left stack stack' op left right e' _ ih =>
    cases tier with
    | restricted =>
      have hv := ih (fun _ => by cases hsum rfl with | more _ _ h _ => exact h) hbreak
      simp only [Scope.valueAt, Tier.value] at hv ⊢
      simp only [Expr.evalRestricted, hv]
    | full =>
      have hv := ih (fun h => by cases h) hbreak
      simp only [Scope.valueAt, Tier.value] at hv ⊢
      simp only [Expr.evalWith, hv]
  | @right stack stack' op left right e' q hl _ ih =>
    cases tier with
    | restricted =>
      have hv := ih (fun _ => by cases hsum rfl; exact .literal _ _) hbreak
      simp only [Scope.valueAt, Tier.value] at hl hv ⊢
      simp only [Expr.evalRestricted, hl, hv]
    | full =>
      have hv := ih (fun h => by cases h) hbreak
      simp only [Scope.valueAt, Tier.value] at hl hv ⊢
      simp only [Expr.evalWith, hl, hv]
  | @cell stack stack' label a statement e' htier ha hs hformula _ ih =>
    subst htier
    have hv := ih (fun h => by cases h) hbreak
    simp only [Scope.valueAt, Tier.value] at hv ⊢
    rw [Expr.evalWith, evalCell_eq]
    simp only [ha, hs, if_false, hformula, hv]
    rfl

/-- An evaluation breaks down exactly if a part that it visits does. -/
theorem valueAt_eq_fault_iff (hsum : tier = .restricted → Grammar.LiteralSum e) :
    s.valueAt tier strict stack e = .error (.fault fault) ↔
      ∃ stack' e', s.Visits tier strict stack e stack' e' ∧
        s.BreaksAt tier strict stack' e' fault := by
  constructor
  · refine exists_breaksAt_of_cells fun label htier h => ?_
    subst htier
    exact exists_breaksAt_of_evalCell stack label h
  · rintro ⟨stack', e', hvisit, hbreak⟩
    exact valueAt_of_breaksAt hsum hvisit hbreak

end

end UnitSheet
