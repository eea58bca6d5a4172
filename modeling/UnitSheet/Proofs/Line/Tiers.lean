import UnitSheet.Document.Recompute
import UnitSheet.Proofs.Grammar.Restricted
import UnitSheet.Proofs.Token.Spelling

set_option autoImplicit false

namespace UnitSheet

/-- The statement on a line and its value by the full grammar alone. -/
def evaluateFull (store : Store) (cell : String → Except Failure Quantity) (text : String) :
    Except Failure (Statement × Quantity) :=
  let lexed := lex (preparedText text)
  match lexed.strays with
  | stray :: _ => .error (.mistake (.stray stray))
  | [] =>
    match Grammar.parse lexed.tokens with
    | .error e => .error (.mistake (.parse e))
    | .ok statement => (statement.expr.evalWith store cell).map (statement, ·)

theorem evalRestricted_false {e : Expr} (h : Grammar.LiteralSum e) (store : Store)
    (cell : String → Except Failure Quantity) :
    e.evalRestricted false = e.evalWith store cell := by
  induction h with
  | literal value unit => rfl
  | @more op l value unit _ hop ih =>
    simp only [Expr.evalRestricted, Expr.evalWith, ih]
    cases l.evalWith store cell with
    | error failure => rfl
    | ok left =>
      dsimp only
      cases Quantity.ofUnit value unit with
      | error failure => rfl
      | ok right => rcases hop with rfl | rfl <;> rfl

/-- With strict units a sum has its value, or two of its units are not written alike. -/
theorem evalRestricted_true {e : Expr} (h : Grammar.LiteralSum e) :
    e.evalRestricted true = e.evalRestricted false ∨
      ∃ l r, e.evalRestricted true = .error (.mismatch (.written l r)) := by
  induction h with
  | literal value unit => exact .inl rfl
  | @more op l value unit _ hop ih =>
    rcases ih with ih | ⟨u, v, ih⟩
    · simp only [Expr.evalRestricted, ih]
      cases l.evalRestricted false with
      | error failure => exact .inl rfl
      | ok left =>
        dsimp only
        cases Quantity.ofUnit value unit with
        | error failure => exact .inl rfl
        | ok right =>
          by_cases hu : (left.unit == right.unit) = true
          · left
            simp only [Quantity.ensureSameUnit, hu, if_true, Bool.false_eq_true, if_false]
          · right
            refine ⟨left.unit, right.unit, ?_⟩
            simp only [Quantity.ensureSameUnit, hu, if_true, Bool.false_eq_true, if_false]
    · refine .inr ⟨u, v, ?_⟩
      simp only [Expr.evalRestricted, ih]

theorem sumsSpelled_lex (text : String) : Grammar.SumsSpelled (lex text).tokens := by
  intro t ht op hop
  obtain ⟨hk | hk, rfl⟩ := Grammar.sumOp?_eq_some hop
  · have hspelling : t.kind.spelling? = some ['+'] := by
      rw [hk]
      rfl
    rw [text_of_mem_lex ht hspelling]
    exact .inl (by decide)
  · have hspelling : t.kind.spelling? = some ['-'] := by
      rw [hk]
      rfl
    rw [text_of_mem_lex ht hspelling]
    exact .inr (by decide)

theorem parse_of_readLine {text : String} {statement : Statement} {tier : Tier}
    (h : readLine text = .ok (statement, tier)) :
    (lex (preparedText text)).strays = [] ∧
      Grammar.parse (lex (preparedText text)).tokens = .ok statement := by
  unfold readLine at h
  dsimp only at h
  split at h
  · cases h
  · rename_i hstrays
    refine ⟨hstrays, ?_⟩
    split at h
    · rename_i hparse
      obtain ⟨rfl, -⟩ := Prod.mk.inj (Except.ok.inj h)
      exact (Grammar.Restricted.parse_of_parsed (sumsSpelled_lex _) hparse).1
    · split at h
      · cases h
      · rename_i hparse
        obtain ⟨rfl, -⟩ := Prod.mk.inj (Except.ok.inj h)
        exact hparse

theorem literalSum_of_readLine {text : String} {statement : Statement}
    (h : readLine text = .ok (statement, .restricted)) : Grammar.LiteralSum statement.expr := by
  unfold readLine at h
  dsimp only at h
  split at h
  · cases h
  · split at h
    · rename_i statement' hparse
      obtain ⟨rfl, -⟩ := Prod.mk.inj (Except.ok.inj h)
      exact (Grammar.Restricted.parse_of_parsed (sumsSpelled_lex _) hparse).2
    · split at h <;> cases h

/-- What the full grammar reads is on the line, whichever grammar comes first. -/
theorem parse_preparedText {text : String} {ts : List Token} {statement : Statement}
    (hprepared : preparedText text = text) (hstrays : (lex text).strays = [])
    (htokens : Token.significant (lex text).tokens = ts)
    (h : Grammar.DerivesStatement ts statement) :
    (lex (preparedText text)).strays = [] ∧
      Grammar.parse (lex (preparedText text)).tokens = .ok statement := by
  rw [hprepared, Grammar.parse_eq_ok_iff, htokens]
  exact ⟨hstrays, h⟩

theorem readLine_of_restricted {text : String} {statement : Statement}
    (hstrays : (lex (preparedText text)).strays = [])
    (hparse : Grammar.Restricted.parse (lex (preparedText text)).tokens = .parsed statement) :
    readLine text = .ok (statement, .restricted) := by
  simp only [readLine, hstrays, hparse]

theorem exists_readLine_of_parse {text : String} {statement : Statement}
    (hstrays : (lex (preparedText text)).strays = [])
    (hparse : Grammar.parse (lex (preparedText text)).tokens = .ok statement) :
    ∃ tier, readLine text = .ok (statement, tier) := by
  cases hrestricted : Grammar.Restricted.parse (lex (preparedText text)).tokens with
  | parsed other =>
    have hfull := (Grammar.Restricted.parse_of_parsed (sumsSpelled_lex _) hrestricted).1
    obtain rfl := Except.ok.inj (hfull.symm.trans hparse)
    exact ⟨.restricted, readLine_of_restricted hstrays hrestricted⟩
  | needsFull token => exact ⟨.full, by simp only [readLine, hstrays, hrestricted, hparse]⟩
  | failed e => exact ⟨.full, by simp only [readLine, hstrays, hrestricted, hparse]⟩

theorem readLine_of_parse {text : String} {statement : Statement}
    (hstrays : (lex (preparedText text)).strays = [])
    (hparse : Grammar.parse (lex (preparedText text)).tokens = .ok statement)
    (hsum : ¬ Grammar.LiteralSum statement.expr) : readLine text = .ok (statement, .full) := by
  obtain ⟨tier, hread⟩ := exists_readLine_of_parse hstrays hparse
  cases tier with
  | restricted => exact absurd (literalSum_of_readLine hread) hsum
  | full => exact hread

/-- A line is read by the full grammar, or it is a sum of literals that both grammars read. -/
theorem evaluateLineWith_cases (strict : Bool) (store : Store)
    (cell : String → Except Failure Quantity) (text : String) :
    evaluateLineWith strict store cell text = evaluateFull store cell text ∨
    ∃ s : Statement, Grammar.LiteralSum s.expr ∧
      evaluateLineWith strict store cell text = (s.expr.evalRestricted strict).map (s, ·) ∧
      evaluateFull store cell text = (s.expr.evalWith store cell).map (s, ·) := by
  unfold evaluateLineWith readLine evaluateFull
  dsimp only
  cases (lex (preparedText text)).strays with
  | cons stray more => exact .inl rfl
  | nil =>
    dsimp only
    cases hr : Grammar.Restricted.parse (lex (preparedText text)).tokens with
    | parsed s =>
      obtain ⟨hfull, hsum⟩ := Grammar.Restricted.parse_of_parsed (sumsSpelled_lex _) hr
      rw [hfull]
      exact .inr ⟨s, hsum, rfl, rfl⟩
    | needsFull token =>
      left
      cases Grammar.parse (lex (preparedText text)).tokens <;> rfl
    | failed e =>
      left
      cases Grammar.parse (lex (preparedText text)).tokens <;> rfl

/-- On every line, whatever its names and cell labels mean, the two grammars together give the
statement and the value, or the failure, that the full grammar gives alone. With strict units the
line may also be refused, for two units that are not written alike. -/
theorem evaluateLineWith_agrees (store : Store) (cell : String → Except Failure Quantity)
    (text : String) :
    evaluateLineWith false store cell text = evaluateFull store cell text ∧
    (evaluateLineWith true store cell text = evaluateFull store cell text ∨
      ∃ l r, evaluateLineWith true store cell text = .error (.mismatch (.written l r))) := by
  constructor
  · rcases evaluateLineWith_cases false store cell text with h | ⟨s, hsum, h, hfull⟩
    · exact h
    · rw [h, hfull, evalRestricted_false hsum store cell]
  · rcases evaluateLineWith_cases true store cell text with h | ⟨s, hsum, h, hfull⟩
    · exact .inl h
    · rcases evalRestricted_true hsum with heq | ⟨l, r, heq⟩
      · left
        rw [h, hfull, heq, evalRestricted_false hsum store cell]
      · right
        refine ⟨l, r, ?_⟩
        rw [h, heq]
        rfl

end UnitSheet
