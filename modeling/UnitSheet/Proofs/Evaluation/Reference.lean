import Mathlib.Data.List.Chain
import Mathlib.Logic.Relation
import UnitSheet.Proofs.Grammar.Exactness
import UnitSheet.Steps

set_option autoImplicit false

namespace UnitSheet

/-- The expression denotes the value: a cell label denotes what the formula in its cell denotes. -/
inductive Scope.Denotes (s : Scope) : Expr → Quantity → Prop
  | literal {value : Float} {unit : Option String} {q : Quantity} :
      Quantity.ofUnit value unit = .ok q → s.Denotes (.literal value unit) q
  | name {n : String} {q : Quantity} :
      s.store.evalName n = .ok q → s.Denotes (.name n) q
  | cell {label : String} {a : Address} {statement : Statement} {q : Quantity} :
      s.addresses (upper label) = .ok (some a) →
        s.sheet.formula (upper label) a = .ok statement → s.Denotes statement.expr q →
          s.Denotes (.cell label) q
  | signed {sign : SignOp} {e : Expr} {q r : Quantity} :
      s.Denotes e q → sign.apply q = .ok r → s.Denotes (.signed sign e) r
  | binary {op : BinaryOp} {left right : Expr} {q r v : Quantity} :
      s.Denotes left q → s.Denotes right r → op.apply q r = .ok v →
        s.Denotes (.binary op left right) v

def Scope.Mentions (s : Scope) (e : Expr) (a : Address) : Prop :=
  ∃ label, Reference.cell label ∈ e.references ∧ s.addresses (upper label) = .ok (some a)

def Scope.Refers (s : Scope) (a b : Address) : Prop :=
  ∃ label statement, s.sheet.formula label a = .ok statement ∧ s.Mentions statement.expr b

section
variable {s : Scope} {e : Expr} {stack : List Address} {label : String} {a b : Address}
  {q : Quantity} {f : Failure}

theorem formula_label {statement : Statement} (other : String)
    (h : s.sheet.formula label a = .ok statement) :
    s.sheet.formula other a = .ok statement := by
  unfold Sheet.formula at h ⊢
  split at h
  · cases h
  · split at h
    · cases h
    · rename_i hne
      rw [if_neg hne]
      dsimp only at h ⊢
      split at h
      · cases h
      · split at h
        · cases h
        · exact h

theorem formula_eq_ok_iff {sheet : Sheet} {text : String} {statement : Statement}
    (h : sheet.read a = .ok text) : sheet.formula label a = .ok statement ↔
      (lex (cellText text)).strays = [] ∧
        Grammar.parse (lex (cellText text)).tokens = .ok statement := by
  unfold Sheet.formula
  rw [h]
  dsimp only
  split
  · rename_i hempty
    refine iff_of_false nofun fun ⟨_, hparse⟩ => ?_
    rw [hempty] at hparse
    exact (Grammar.parse_eq_ok_iff.1 hparse).ne_nil (by decide +kernel)
  · cases (lex (cellText text)).strays with
    | cons stray more => exact iff_of_false nofun fun h => nomatch h.1
    | nil =>
      dsimp only
      cases Grammar.parse (lex (cellText text)).tokens with
      | error e => exact iff_of_false nofun fun h => nomatch h.2
      | ok found => simp

theorem evalCell_eq (s : Scope) (stack : List Address) (label : String) :
    s.evalCell stack label =
      match s.addresses (upper label) with
      | .error reason => .error (.eval (.cellUnresolved (upper label) reason))
      | .ok none => .error (.eval (.cellInvalid (upper label)))
      | .ok (some a) =>
        if a ∈ stack then .error (circularFailure (upper label) stack a)
        else match s.sheet.formula (upper label) a with
          | .error failure => .error failure
          | .ok statement =>
            (statement.expr.evalWith s.store (s.evalCell (a :: stack))).mapError
              (cellFailure (upper label)) := by
  rw [Scope.evalCell]
  rcases s.addresses (upper label) with reason | _ | a
  · rfl
  · rfl
  · dsimp only
    by_cases hs : a ∈ stack
    · simp only [List.contains_eq_mem, hs, decide_true, dite_true, if_true]
    · simp only [List.contains_eq_mem, hs, decide_false, Bool.false_eq_true, dite_false, if_false]
      split
      · rename_i hf
        rw [hf]
      · rename_i statement hf
        rw [hf]
        dsimp only
        cases statement.expr.evalWith s.store (s.evalCell (a :: stack)) <;> rfl

theorem evalCell_eq_ok_iff : s.evalCell stack label = .ok q ↔
    ∃ a statement, s.addresses (upper label) = .ok (some a) ∧ a ∉ stack ∧
      s.sheet.formula (upper label) a = .ok statement ∧
        statement.expr.evalWith s.store (s.evalCell (a :: stack)) = .ok q := by
  rw [evalCell_eq]
  constructor
  · intro h
    split at h
    · cases h
    · cases h
    · rename_i a ha
      split at h
      · cases h
      · rename_i hs
        split at h
        · cases h
        · rename_i statement hf
          refine ⟨a, statement, ha, hs, hf, ?_⟩
          cases hv : statement.expr.evalWith s.store (s.evalCell (a :: stack)) with
          | error failure =>
            rw [hv] at h
            cases h
          | ok v =>
            rw [hv] at h
            exact h
  · rintro ⟨a, statement, ha, hs, hf, hv⟩
    simp only [ha, hs, if_false, hf, hv]
    rfl

theorem denotes_of_evalWith {cell : String → Except Failure Quantity}
    (hcell : ∀ label q, cell label = .ok q → s.Denotes (.cell label) q)
    (h : e.evalWith s.store cell = .ok q) : s.Denotes e q := by
  induction e generalizing q with
  | literal value unit => exact .literal h
  | name n => exact .name h
  | cell label => exact hcell label q h
  | signed sign operand ih =>
    simp only [Expr.evalWith] at h
    split at h
    · cases h
    · rename_i v hv
      exact .signed (ih hv) h
  | binary op left right ihl ihr =>
    simp only [Expr.evalWith] at h
    split at h
    · cases h
    · rename_i l hl
      split at h
      · cases h
      · rename_i r hr
        exact .binary (ihl hl) (ihr hr) h

theorem denotes_of_evalCell (stack : List Address) (label : String) {q : Quantity}
    (h : s.evalCell stack label = .ok q) : s.Denotes (.cell label) q := by
  -- The induction is on the cells that are free.
  obtain ⟨a, statement, ha, hs, hf, hv⟩ := evalCell_eq_ok_iff.1 h
  have hfree : (s.sheet.free (a :: stack)).length < (s.sheet.free stack).length :=
    Sheet.free_cons_lt (Sheet.mem_occupied_of_formula hf) (by simpa using hs)
  exact .cell ha hf (denotes_of_evalWith (fun label q => denotes_of_evalCell (a :: stack) label) hv)
termination_by (s.sheet.free stack).length

/-- The cells that an expression with a value mentions are the start of no endless chain of
references: the derivation of the value holds a derivation for each of them. -/
theorem Scope.Denotes.acc (h : s.Denotes e q) :
    ∀ a, s.Mentions e a → Acc (fun b a => s.Refers a b) a := by
  induction h with
  | literal _ =>
    rintro a ⟨label, hmem, -⟩
    cases hmem
  | name _ =>
    rintro a ⟨label, hmem, -⟩
    rw [Expr.references, List.mem_singleton] at hmem
    cases hmem
  | @cell label a statement q ha hf _ ih =>
    rintro b ⟨label', hmem, hb⟩
    rw [Expr.references, List.mem_singleton] at hmem
    obtain rfl := Reference.cell.inj hmem
    rw [ha] at hb
    obtain rfl := Option.some.inj (Except.ok.inj hb)
    refine ⟨_, ?_⟩
    rintro c ⟨other, statement', hf', hc⟩
    -- The cell is read under another label there, but its formula is the same.
    rw [formula_label other hf] at hf'
    obtain rfl := Except.ok.inj hf'
    exact ih c hc
  | signed _ _ ih => exact ih
  | binary _ _ _ ihl ihr =>
    rintro a ⟨label, hmem, ha⟩
    rcases List.mem_append.1 hmem with hmem | hmem
    · exact ihl a ⟨label, hmem, ha⟩
    · exact ihr a ⟨label, hmem, ha⟩

theorem not_transGen_of_acc {α : Type} {r : α → α → Prop} {a : α} (h : Acc r a) :
    ¬ Relation.TransGen r a a := by
  have hacc := h.transGen
  induction hacc with
  | intro a _ ih =>
    intro haa
    exact ih a haa (h) haa

theorem mentions_cell (ha : s.addresses (upper label) = .ok (some a)) :
    s.Mentions (.cell label) a :=
  ⟨label, List.mem_singleton_self _, ha⟩

theorem Scope.Denotes.not_cyclic (h : s.Denotes e q) (ha : s.Mentions e a) :
    ¬ Relation.TransGen s.Refers a a := by
  intro hcycle
  exact not_transGen_of_acc (h.acc a ha) (Relation.transGen_swap.2 hcycle)

/-- What an expression denotes is its value, as long as no cell under evaluation can be reached from
the cells that it mentions. -/
theorem evalWith_of_denotes (h : s.Denotes e q) : ∀ stack : List Address,
    (∀ b ∈ stack, ∀ a, s.Mentions e a → ¬ Relation.ReflTransGen s.Refers a b) →
      e.evalWith s.store (s.evalCell stack) = .ok q := by
  induction h with
  | literal h => exact fun _ _ => h
  | name h => exact fun _ _ => h
  | @cell label a statement q ha hf hd ih =>
    intro stack hstack
    have hmention := mentions_cell ha
    have hrefers : ∀ c, s.Mentions statement.expr c → s.Refers a c := fun c hc =>
      ⟨_, statement, hf, hc⟩
    have hs : a ∉ stack := fun hmem => hstack a hmem a hmention .refl
    refine evalCell_eq_ok_iff.2 ⟨a, statement, ha, hs, hf, ih (a :: stack) ?_⟩
    intro b hb c hc hcb
    -- Either `a` would lead back to itself, or to a cell that was under evaluation before.
    rcases List.mem_cons.1 hb with rfl | hb
    · exact (Scope.Denotes.cell ha hf hd).not_cyclic hmention (.head' (hrefers c hc) hcb)
    · exact hstack b hb a hmention (.head (hrefers c hc) hcb)
  | @signed sign e q r _ happly ih =>
    intro stack hstack
    simp only [Expr.evalWith, ih stack hstack, happly]
  | @binary op left right q r v _ _ happly ihl ihr =>
    intro stack hstack
    have hl := ihl stack fun b hb a ha =>
      hstack b hb a (ha.imp fun _ h => ⟨List.mem_append_left _ h.1, h.2⟩)
    have hr := ihr stack fun b hb a ha =>
      hstack b hb a (ha.imp fun _ h => ⟨List.mem_append_right _ h.1, h.2⟩)
    simp only [Expr.evalWith, hl, hr, happly]

/-- Remembering the cells under evaluation changes no value. -/
theorem eval_eq_ok_iff_denotes : s.eval e = .ok q ↔ s.Denotes e q := by
  constructor
  · exact denotes_of_evalWith fun label q => denotes_of_evalCell [] label
  · intro h
    exact evalWith_of_denotes h [] fun b hb => absurd hb List.not_mem_nil

end

end UnitSheet
