import UnitSheet.Proofs.Evaluation.Failures
import UnitSheet.Proofs.Evaluation.Reference

set_option autoImplicit false

namespace UnitSheet

def Failure.isCyclic : Failure → Bool
  | .mistake (.eval (.circular _ _)) | .fault (.column _) => true
  | _ => false

/-- A walk along references to a cell that it has seen before. -/
def Scope.IsLoop (s : Scope) (walk : List Address) : Prop :=
  walk.IsChain s.Refers ∧ ∃ before a, walk = before ++ [a] ∧ a ∈ before

def AddressReader.HasColumns (addresses : AddressReader) : Prop :=
  ∀ label a, addresses label = .ok (some a) → 0 ≤ a.col ∧ a.col < columnCount

section
variable {s : Scope} {e : Expr} {stack : List Address} {label : String} {a : Address} {f : Failure}

theorem isCyclic_eq_false_of_isArithmetic (h : f.IsArithmetic) : f.isCyclic = false := by
  cases h with
  | @mistake e he =>
    cases e with
    | circular => cases he
    | _ => rfl
  | overflow => rfl
  | zeroDivision => rfl

theorem isCyclic_eq_false_of_isUnusable (h : f.IsUnusable label) : f.isCyclic = false := by
  cases h <;> rfl

theorem circularFailure_cases (label : String) (stack : List Address) (a : Address) :
    (∃ path, (stack.reverse ++ [a]).mapM Address.label = .ok path ∧
      circularFailure label stack a = .eval (.circular label path)) ∨
    ∃ cause, (stack.reverse ++ [a]).mapM Address.label = .error cause ∧
      circularFailure label stack a = .fault (.column cause) := by
  unfold circularFailure
  cases (stack.reverse ++ [a]).mapM Address.label with
  | ok path => exact .inl ⟨path, rfl, rfl⟩
  | error cause => exact .inr ⟨cause, rfl, rfl⟩

theorem cellFailure_of_isCyclic (h : (cellFailure label f).isCyclic = true) :
    cellFailure label f = f := by
  unfold cellFailure at h ⊢
  split
  · rename_i e
    cases he : e.cellLabel?.isSome with
    | true => rfl
    | false =>
      simp only [he] at h
      cases h
  · rfl

/-- The complaint about a cycle comes with the walk from the label to a cell that is under
evaluation, or was already passed. -/
theorem walk_of_isCyclic (stack : List Address) (label : String) {f : Failure}
    (h : s.evalCell stack label = .error f) (hf : f.isCyclic = true) :
    ∃ other before a, f = circularFailure other (before.reverse ++ stack) a ∧
      (before ++ [a]).IsChain s.Refers ∧ a ∈ before.reverse ++ stack ∧
        ∃ first, (before ++ [a]).head? = some first ∧
          s.addresses (upper label) = .ok (some first) := by
  have hcell := evalCell_eq s stack label
  rw [h] at hcell
  split at hcell
  · obtain rfl := Except.error.inj hcell
    cases hf
  · obtain rfl := Except.error.inj hcell
    cases hf
  · rename_i a ha
    split at hcell
    · rename_i hs
      exact ⟨_, [], a, Except.error.inj hcell, List.isChain_singleton a, by simpa using hs, a, rfl, ha⟩
    · rename_i hs
      split at hcell
      · rename_i hformula
        obtain rfl := Except.error.inj hcell
        rw [isCyclic_eq_false_of_isUnusable (isUnusable_of_formula hformula)] at hf
        cases hf
      · rename_i statement hformula
        cases hv : statement.expr.evalWith s.store (s.evalCell (a :: stack)) with
        | ok v =>
          rw [hv] at hcell
          cases hcell
        | error g =>
          rw [hv] at hcell
          have hg : f = cellFailure (upper label) g := Except.error.inj hcell
          obtain rfl : f = g := hg.trans (cellFailure_of_isCyclic (hg ▸ hf))
          rcases failure_of_evalWith hv with harith | ⟨inner, hmem, hinner⟩
          · rw [isCyclic_eq_false_of_isArithmetic harith] at hf
            cases hf
          -- The walk of the inner label starts behind `a`, which is one free cell less.
          have hfree : (s.sheet.free (a :: stack)).length < (s.sheet.free stack).length :=
            Sheet.free_cons_lt (Sheet.mem_occupied_of_formula hformula) (by simpa using hs)
          obtain ⟨other, before, b, hcircular, hchain, hseen, first, hfirst, haddress⟩ :=
            walk_of_isCyclic (a :: stack) inner hinner hf
          have hrefers : s.Refers a first := ⟨_, statement, hformula, inner, hmem, haddress⟩
          refine ⟨other, a :: before, b, ?_, ?_, ?_, a, rfl, ha⟩
          · rw [hcircular, List.reverse_cons, List.append_assoc]
            rfl
          · refine List.isChain_cons.2 ⟨fun c hc => ?_, hchain⟩
            obtain rfl := Option.some.inj (hfirst.symm.trans hc)
            exact hrefers
          · rw [List.reverse_cons, List.append_assoc]
            exact hseen
termination_by (s.sheet.free stack).length

/-- An expression is refused for a cycle only with a walk from one of its cells into the cycle. -/
theorem loop_of_eval (h : s.eval e = .error f) (hf : f.isCyclic = true) :
    ∃ other before a, f = circularFailure other before.reverse a ∧ s.IsLoop (before ++ [a]) ∧
      ∃ first, (before ++ [a]).head? = some first ∧ s.Mentions e first := by
  rcases failure_of_evalWith h with harith | ⟨label, hmem, hcell⟩
  · rw [isCyclic_eq_false_of_isArithmetic harith] at hf
    cases hf
  obtain ⟨other, before, a, hcircular, hchain, hseen, first, hfirst, haddress⟩ :=
    walk_of_isCyclic [] label hcell hf
  rw [List.append_nil] at hcircular hseen
  exact ⟨other, before, a, hcircular, ⟨hchain, before, a, rfl, List.mem_reverse.1 hseen⟩,
    first, hfirst, label, hmem, haddress⟩

theorem mapM_label_of_circular {other : String} {path : List String} {before : List Address}
    (h : circularFailure other before.reverse a = .eval (.circular label path)) :
    (before ++ [a]).mapM Address.label = .ok path := by
  rcases circularFailure_cases other before.reverse a with ⟨path', hpath, hsame⟩ | ⟨_, -, hfault⟩
  · cases hsame.symm.trans h
    rwa [List.reverse_reverse] at hpath
  · cases hfault.symm.trans h

theorem mapM_label_ne_error {walk : List Address} {cause : ColumnError}
    (h : ∀ a ∈ walk, 0 ≤ a.col ∧ a.col < columnCount) :
    walk.mapM Address.label ≠ .error cause := by
  induction walk with
  | nil =>
    intro hnil
    cases hnil
  | cons a walk ih =>
    obtain ⟨hlow, hhigh⟩ := h a List.mem_cons_self
    have hlabel : ∃ text, a.label = .ok text := by
      unfold Address.label columnLabel
      rw [if_neg (by omega), if_neg (by omega)]
      exact ⟨_, rfl⟩
    obtain ⟨text, htext⟩ := hlabel
    have ih := ih fun b hb => h b (List.mem_cons_of_mem a hb)
    rw [List.mapM_cons, htext]
    cases hwalk : walk.mapM Address.label with
    | error cause' =>
      intro hcons
      obtain rfl := Except.error.inj hcons
      exact ih hwalk
    | ok path =>
      intro hcons
      cases hcons

theorem read_of_mem_walk {walk : List Address} (h : walk.IsChain s.Refers)
    (hfirst : ∀ first, walk.head? = some first → ∃ text, s.addresses text = .ok (some first)) :
    ∀ a ∈ walk, ∃ text, s.addresses text = .ok (some a) := by
  induction walk with
  | nil => exact fun a ha => absurd ha List.not_mem_nil
  | cons a walk ih =>
    obtain ⟨hhead, htail⟩ := List.isChain_cons.1 h
    have ih := ih htail fun b hb => by
      obtain ⟨_, _, _, other, _, haddress⟩ := hhead b hb
      exact ⟨_, haddress⟩
    intro b hb
    rcases List.mem_cons.1 hb with rfl | hb
    · exact hfirst b rfl
    · exact ih b hb

theorem eval_ne_column (h : s.addresses.HasColumns) (cause : ColumnError) :
    s.eval e ≠ .error (.fault (.column cause)) := by
  intro heval
  obtain ⟨other, before, a, hcircular, ⟨hchain, -⟩, first, hfirst, label, hmem, haddress⟩ :=
    loop_of_eval heval rfl
  have hread := read_of_mem_walk hchain fun b hb => by
    obtain rfl := Option.some.inj (hfirst.symm.trans hb)
    exact ⟨_, haddress⟩
  rcases circularFailure_cases other before.reverse a with ⟨_, -, hpath⟩ | ⟨cause', hlabels, -⟩
  · cases hpath.symm.trans hcircular.symm
  · rw [List.reverse_reverse] at hlabels
    refine mapM_label_ne_error (fun b hb => ?_) hlabels
    obtain ⟨text, hb⟩ := hread b hb
    exact h text b hb

theorem acc_of_reachable {b : Address} (h : Acc (fun b a => s.Refers a b) a)
    (hab : Relation.ReflTransGen s.Refers a b) : Acc (fun b a => s.Refers a b) b := by
  induction hab with
  | refl => exact h
  | tail _ hstep ih => exact ih.inv hstep

/-- Remembering the cells under evaluation refuses exactly what has no value: the value of an
expression is what it denotes, an expression that leads into a cycle has none, and the path of a
complaint about a cycle spells out a walk into one. The complaint cannot break down if every column
has a label. -/
theorem eval_exact (s : Scope) (e : Expr) :
    (∀ q, s.eval e = .ok q ↔ s.Denotes e q) ∧
    (∀ a b q, s.Mentions e a → Relation.ReflTransGen s.Refers a b →
      Relation.TransGen s.Refers b b → s.eval e ≠ .ok q) ∧
    (∀ label path, s.eval e = .error (.eval (.circular label path)) →
      ∃ walk first, walk.mapM Address.label = .ok path ∧ s.IsLoop walk ∧
        walk.head? = some first ∧ s.Mentions e first) ∧
    (s.addresses.HasColumns → ∀ cause, s.eval e ≠ .error (.fault (.column cause))) := by
  refine ⟨fun q => eval_eq_ok_iff_denotes, ?_, ?_, eval_ne_column⟩
  · intro a b q ha hab hcycle heval
    have hacc := acc_of_reachable ((eval_eq_ok_iff_denotes.1 heval).acc a ha) hab
    exact not_transGen_of_acc hacc (Relation.transGen_swap.2 hcycle)
  · intro label path heval
    obtain ⟨other, before, a, hcircular, hloop, first, hfirst, hmention⟩ := loop_of_eval heval rfl
    exact ⟨_, first, mapM_label_of_circular hcircular.symm, hloop, hfirst, hmention⟩

end

end UnitSheet
