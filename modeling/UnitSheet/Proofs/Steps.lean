import UnitSheet.Proofs.Document.Names

set_option autoImplicit false

namespace UnitSheet

def Steps.outcome (steps : Steps) : Outcome :=
  match steps.result with
  | .ok (value, shown) => .value value shown
  | .error e => .failed e

section
variable {s : Scope} {p : Preferences} {text : String} {steps : Steps} {c : Computed}

theorem Steps.settle_eq_ok {α : Type} {x : Except Failure α} {y : Except CalcError α}
    (h : Steps.settle x = .ok y) : x = y.mapError .mistake := by
  unfold Steps.settle at h
  split at h
  · obtain rfl := Except.ok.inj h
    rfl
  · obtain rfl := Except.ok.inj h
    rfl
  · cases h

theorem Steps.result_of_ofText (h : Steps.ofText s p text = .ok steps) :
    (evaluateFull s.store (s.evalCell []) text).bind
        (fun found => (displayQuantity found.2 none p).map (found.2, ·)) =
      steps.result.mapError .mistake := by
  unfold Steps.ofText at h
  unfold evaluateFull
  dsimp only at h ⊢
  cases hstrays : (lex (preparedText text)).strays with
  | cons stray more =>
    simp only [hstrays] at h
    obtain rfl := Except.ok.inj h
    rfl
  | nil =>
    simp only [hstrays] at h ⊢
    cases hparse : Grammar.parse (lex (preparedText text)).tokens with
    | error e =>
      simp only [hparse] at h
      obtain rfl := Except.ok.inj h
      rfl
    | ok statement =>
      simp only [hparse, Steps.ofStatement] at h ⊢
      split at h
      · cases h
      · cases hresult : Steps.settle (Steps.valueText s p statement.expr) with
        | error fault =>
          rw [hresult] at h
          cases h
        | ok result =>
          rw [hresult] at h
          obtain rfl := Except.ok.inj h
          rw [← Steps.settle_eq_ok hresult, Steps.valueText, Scope.eval]
          cases statement.expr.evalWith s.store (s.evalCell []) <;> rfl

theorem Steps.exists_settle {α : Type} {x : Except Failure α}
    (h : ∀ fault, x ≠ .error (.fault fault)) : ∃ y, Steps.settle x = .ok y := by
  match x with
  | .ok value => exact ⟨_, rfl⟩
  | .error (.mistake e) => exact ⟨_, rfl⟩
  | .error (.fault fault) => exact absurd rfl (h fault)

theorem Steps.exists_foldlM_addInput {refs : List Reference}
    (h : ∀ r ∈ refs, ∀ fault, valueText s p r.expr ≠ .error (.fault fault))
    (inputs : List StepInput) : ∃ inputs', refs.foldlM (addInput s p) inputs = .ok inputs' := by
  induction refs generalizing inputs with
  | nil => exact ⟨inputs, rfl⟩
  | cons r refs ih =>
    obtain ⟨next, hnext⟩ : ∃ next, addInput s p inputs r = .ok next := by
      obtain ⟨y, hy⟩ := exists_settle (h r List.mem_cons_self)
      unfold addInput
      rw [hy]
      split
      · exact ⟨_, rfl⟩
      · split
        · exact ⟨_, rfl⟩
        · cases y <;> exact ⟨_, rfl⟩
    rw [List.foldlM_cons, hnext]
    exact ih (fun r' hr' => h r' (List.mem_cons_of_mem _ hr')) next

/-- A text has steps, unless its value or that of a reference breaks down. -/
theorem Steps.exists_ofText
    (h : ∀ statement, Grammar.parse (lex (preparedText text)).tokens = .ok statement →
      (∀ r ∈ statement.expr.references, ∀ fault, valueText s p r.expr ≠ .error (.fault fault)) ∧
        ∀ fault, valueText s p statement.expr ≠ .error (.fault fault)) :
    ∃ steps, Steps.ofText s p text = .ok steps := by
  unfold Steps.ofText
  dsimp only
  split
  · exact ⟨_, rfl⟩
  · cases hparse : Grammar.parse (lex (preparedText text)).tokens with
    | error e => exact ⟨_, rfl⟩
    | ok statement =>
      obtain ⟨hrefs, hvalue⟩ := h statement hparse
      obtain ⟨inputs, hinputs⟩ :=
        exists_foldlM_addInput (fun r hr => hrefs r (mem_firstOccurrences.1 hr)) []
      obtain ⟨result, hresult⟩ := exists_settle hvalue
      dsimp only
      rw [ofStatement, hinputs, hresult]
      exact ⟨_, rfl⟩

theorem Steps.valueText_ne_fault {e : Expr} {q : Quantity} (hq : s.eval e = .ok q)
    (hshown : (displayQuantity q none p).isOk = true) (fault : Fault) :
    valueText s p e ≠ .error (.fault fault) := by
  rw [valueText, hq]
  dsimp only
  cases hdisplay : displayQuantity q none p with
  | ok shown => nofun
  | error f =>
    rw [hdisplay] at hshown
    cases hshown

theorem computeLine_eq_bind (o : Options) (s : Scope) (text : String) :
    (computeLine o s text).map (fun c => (c.value, c.shown)) =
      (evaluateLine o.strict s text).bind
        fun found => (displayQuantity found.2 none o.preferences).map (found.2, ·) := by
  unfold computeLine
  cases evaluateLine o.strict s text with
  | error failure => rfl
  | ok found =>
    dsimp only [Except.bind]
    cases displayQuantity found.2 none o.preferences <;> rfl

/-- A line whose units need not be written alike comes to what its steps come to. -/
theorem Steps.computeLine_cases (h : Steps.ofText s p text = .ok steps) :
    (∃ c, computeLine { strict := false, preferences := p } s text = .ok c ∧
      steps.outcome = .value c.value c.shown) ∨
    ∃ e, computeLine { strict := false, preferences := p } s text = .error (.mistake e) ∧
      steps.outcome = .failed e := by
  have hline := computeLine_eq_bind { strict := false, preferences := p } s text
  have hagree : evaluateLine false s text = evaluateFull s.store (s.evalCell []) text :=
    (evaluateLineWith_agrees s.store (s.evalCell []) text).1
  dsimp only at hline
  rw [hagree, Steps.result_of_ofText h] at hline
  unfold Steps.outcome
  cases hc : computeLine { strict := false, preferences := p } s text with
  | error failure =>
    cases hresult : steps.result with
    | error e =>
      rw [hc, hresult] at hline
      exact .inr ⟨e, congrArg _ (Except.error.inj hline), rfl⟩
    | ok found =>
      rw [hc, hresult] at hline
      cases hline
  | ok c =>
    cases hresult : steps.result with
    | error e =>
      rw [hc, hresult] at hline
      cases hline
    | ok found =>
      rw [hc, hresult] at hline
      obtain rfl := Except.ok.inj hline
      exact .inl ⟨c, rfl, rfl⟩

theorem computeLine_of_strict
    (h : computeLine { strict := true, preferences := p } s text = .ok c) :
    computeLine { strict := false, preferences := p } s text = .ok c := by
  obtain ⟨hlax, hstrict⟩ := evaluateLineWith_agrees s.store (s.evalCell []) text
  rcases hstrict with hstrict | ⟨l, r, hstrict⟩
  · unfold computeLine evaluateLine at h ⊢
    rwa [hlax, ← hstrict]
  · unfold computeLine evaluateLine at h
    rw [hstrict] at h
    cases h

end

theorem outcome_recompute (o : Options) (s : Scope) (l : Line) :
    (l.recompute o s).line.outcome = l.answer o s := by
  rw [line_recompute, Line.settled]

/-- If no evaluation in the steps of a text breaks down, a line with that text ends in the same value
and text of the value, or in the same complaint; with strict units it may be refused instead, but every
value that it has is that of the steps. -/
theorem Steps.outcome_agrees {s : Scope} {p : Preferences} {l : Line} {steps : Steps}
    (hkind : lineKind (normalize l.text) ≠ .text) (h : Steps.ofText s p l.text = .ok steps) :
    (l.recompute { strict := false, preferences := p } s).fault = none ∧
    (l.recompute { strict := false, preferences := p } s).line.outcome = steps.outcome ∧
    ∀ value shown,
      (l.recompute { strict := true, preferences := p } s).line.outcome = .value value shown →
        steps.outcome = .value value shown := by
  have hcases := Steps.computeLine_cases h
  refine ⟨?_, ?_, fun value shown hvalue => ?_⟩
  · rw [Option.eq_none_iff_forall_ne_some]
    intro fault hfault
    have hbroken := (fault_recompute.1 hfault).2
    rcases hcases with ⟨c, hc, -⟩ | ⟨e, he, -⟩
    · rw [hc] at hbroken
      cases hbroken
    · rw [he] at hbroken
      cases hbroken
  · rw [outcome_recompute, Line.answer, if_neg hkind]
    rcases hcases with ⟨c, hc, houtcome⟩ | ⟨e, he, houtcome⟩
    · rw [hc, houtcome]
    · rw [he, houtcome]
  · rw [outcome_recompute, Line.answer, if_neg hkind] at hvalue
    split at hvalue
    · rename_i c hc
      obtain ⟨rfl, rfl⟩ := Outcome.value.inj hvalue
      rw [computeLine_of_strict hc] at hcases
      rcases hcases with ⟨c', hc', houtcome⟩ | ⟨e, he, -⟩
      · obtain rfl := Except.ok.inj hc'
        exact houtcome
      · cases he
    · cases hvalue
    · cases hvalue

theorem exists_steps_areaLine : ∃ steps, Steps.ofText areaScope {} areaLine.text = .ok steps := by
  refine Steps.exists_ofText fun statement hparse => ?_
  obtain rfl := Except.ok.inj ((parse_of_readLine reads_areaLine.2).2.symm.trans hparse)
  refine ⟨fun r hr => ?_, Steps.valueText_ne_fault eval_areaScope (by decide +kernel)⟩
  have hname := Steps.valueText_ne_fault (s := areaScope) (e := .name "r") evalName_areaScope
    (p := {}) (by decide +kernel)
  simp only [areaExpr, Expr.references, List.mem_append, List.mem_singleton, List.not_mem_nil,
    or_false] at hr
  rcases hr with (rfl | rfl) | rfl
  · exact Steps.valueText_ne_fault evalCell_areaScope (by decide +kernel)
  · exact hname
  · exact hname

theorem Steps.outcome_agrees_areaLine : ∃ steps,
    Steps.ofText areaScope {} areaLine.text = .ok steps ∧
    lineKind (normalize areaLine.text) ≠ .text ∧
    (areaLine.recompute { strict := false } areaScope).line.outcome = steps.outcome ∧
    steps.outcome = .value ⟨3, ⟨2, 0, 0, 0, 0⟩, some "m^2"⟩ "3\u2009m^2" := by
  obtain ⟨steps, hsteps⟩ := exists_steps_areaLine
  have hkind := reads_areaLine.1
  obtain ⟨-, hloose, hstrict⟩ := Steps.outcome_agrees hkind hsteps
  refine ⟨steps, hsteps, hkind, hloose, hstrict _ _ ?_⟩
  rw [outcome_recompute, Line.answer, if_neg hkind, computeLine_areaLine true]

end UnitSheet
