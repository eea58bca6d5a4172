import UnitSheet.Proofs.Line.Repeats
import UnitSheet.Proofs.Line.Tiers

set_option autoImplicit false

namespace UnitSheet

/-- The value of a text as it stands, where cell labels mean what `cell` says. -/
def evaluateText (store : Store) (cell : String → Except Failure Quantity) (text : String) :
    Except Failure Quantity :=
  match Grammar.parseText text with
  | .error e => .error (.mistake (.parse e))
  | .ok statement => statement.expr.evalWith store cell

section
variable {store : Store} {cell : String → Except Failure Quantity} {text : String}
  {statement : Statement} {v : Quantity}

theorem evaluateText_eq_ok_iff : evaluateText store cell text = .ok v ↔
    ∃ statement, Grammar.parse (lex text).tokens = .ok statement ∧
      statement.expr.evalWith store cell = .ok v := by
  unfold evaluateText Grammar.parseText
  cases Grammar.parse (lex text).tokens with
  | error e => simp
  | ok found => simp

theorem evaluateFull_eq_ok_iff : evaluateFull store cell text = .ok (statement, v) ↔
    (lex (preparedText text)).strays = [] ∧
      Grammar.parse (lex (preparedText text)).tokens = .ok statement ∧
        statement.expr.evalWith store cell = .ok v := by
  unfold evaluateFull
  dsimp only
  cases (lex (preparedText text)).strays with
  | cons stray more => simp
  | nil =>
    cases Grammar.parse (lex (preparedText text)).tokens with
    | error e => simp
    | ok found =>
      dsimp only
      constructor
      · intro h
        cases hvalue : found.expr.evalWith store cell with
        | error failure =>
          rw [hvalue] at h
          cases h
        | ok w =>
          rw [hvalue] at h
          obtain ⟨rfl, rfl⟩ := Prod.mk.inj (Except.ok.inj h)
          exact ⟨rfl, rfl, hvalue⟩
      · rintro ⟨-, hfound, hvalue⟩
        obtain rfl := Except.ok.inj hfound
        rw [hvalue]
        rfl

theorem evaluateLineWith_false :
    evaluateLineWith false store cell text = evaluateFull store cell text := by
  rcases evaluateLineWith_cases false store cell text with h | ⟨s, hsum, h, hfull⟩
  · exact h
  · rw [h, hfull, evalRestricted_false hsum store cell]

/-- A line is refused for its first stray character. -/
theorem evaluateLineWith_of_stray {strict : Bool} {stray : StrayChar} {more : List StrayChar}
    (h : (lex (preparedText text)).strays = stray :: more) :
    evaluateLineWith strict store cell text = .error (.mistake (.stray stray)) := by
  have hread : readLine text = .error (.stray stray) := by
    unfold readLine
    dsimp only
    rw [h]
  rw [evaluateLineWith, hread]

/-- On a text that preparation leaves alone, a line returns a value exactly if the text has no stray
characters and has this value when it is evaluated directly, whatever names and cell labels mean.
With stray characters the line is refused for the first one. -/
theorem evaluateLine_eq_ok_iff (htext : preparedText text = text) (v : Quantity) :
    (∀ store cell,
      ((∃ statement, evaluateLineWith false store cell text = .ok (statement, v)) ↔
        (lex text).strays = [] ∧ evaluateText store cell text = .ok v) ∧
      ∀ stray more, (lex text).strays = stray :: more →
        evaluateLineWith false store cell text = .error (.mistake (.stray stray))) ∧
    ∀ s : Scope, (∃ statement, evaluateLine false s text = .ok (statement, v)) ↔
      (lex text).strays = [] ∧ s.evalText text = .ok v := by
  have hline : ∀ store cell,
      (∃ statement, evaluateLineWith false store cell text = .ok (statement, v)) ↔
        (lex text).strays = [] ∧ evaluateText store cell text = .ok v := by
    intro store cell
    simp only [evaluateLineWith_false, evaluateFull_eq_ok_iff, evaluateText_eq_ok_iff, htext]
    exact exists_and_left
  refine ⟨fun store cell => ⟨hline store cell, fun stray more h => ?_⟩, fun s => ?_⟩
  · rw [← htext] at h
    exact evaluateLineWith_of_stray h
  · exact hline s.store (s.evalCell [])

end

/-- Feet and inches, which strict units keep apart. -/
theorem evaluateLine_eq_ok_iff_feetAndInches :
    preparedText "5 ft + 12 in" = "5 ft + 12 in" ∧
      ∃ v, Scope.empty.evalText "5 ft + 12 in" = .ok v ∧
        ∃ statement, evaluateLine false .empty "5 ft + 12 in" = .ok (statement, v) := by
  have htext : preparedText "5 ft + 12 in" = "5 ft + 12 in" := by decide +kernel
  have hstrays : (lex "5 ft + 12 in").strays = [] := by decide +kernel
  have htokens : Token.significant (lex "5 ft + 12 in").tokens =
      [⟨.number 5, "5", 0⟩, ⟨.unit, "ft", 2⟩] ++ ⟨.plus, "+", 5⟩ ::
        [⟨.number 12, "12", 7⟩, ⟨.unit, "in", 10⟩] := by decide +kernel
  have hparse : Grammar.parseText "5 ft + 12 in" =
      .ok ⟨none, .binary (.ofSymbol "+") (.literal 5 (some "ft")) (.literal 12 (some "in"))⟩ := by
    refine Grammar.parse_eq_ok_iff.2 ?_
    rw [htokens]
    exact .formula (.sumMore
      (.sumOfProduct (Grammar.Restricted.product_of_primary (.quantity rfl rfl))) (.inl rfl)
      (Grammar.Restricted.product_of_primary (.quantity rfl rfl)))
  obtain ⟨v, hv⟩ : ∃ v, Scope.empty.evalText "5 ft + 12 in" = .ok v := by
    rw [Scope.evalText, hparse]
    exact ⟨_, rfl⟩
  exact ⟨htext, v, hv, ((evaluateLine_eq_ok_iff htext v).2 .empty).2 ⟨hstrays, hv⟩⟩

/-- A text that preparation leaves alone. Directly it has the value of a product without the percent
sign; as a line it has no value. -/
theorem evalText_percentSign :
    trimEquals "10% * 50" = "10% * 50" ∧ normalize "10% * 50" = "10% * 50" ∧
      foldRepeats "10% * 50" = "10% * 50" ∧
        (∃ v, Scope.empty.evalText "10% * 50" = .ok v ∧ v.magnitude = 10 * 50) ∧
          ∀ statement v, evaluateLine false .empty "10% * 50" ≠ .ok (statement, v) := by
  have htrim : trimEquals "10% * 50" = "10% * 50" := by decide +kernel
  have hnormal : normalize "10% * 50" = "10% * 50" := by decide +kernel
  have hfold : foldRepeats "10% * 50" = "10% * 50" := by
    have hspaced : String.ofList (foldSpaced "10% * 50".toList) = "10% * 50" := by decide +kernel
    rw [foldRepeats, foldGlued_eq_self (by decide), hspaced]
  have hstrays : (lex (preparedText "10% * 50")).strays = [⟨'%', 2⟩] := by
    rw [preparedText, htrim, hnormal, hfold]
    decide +kernel
  have htokens : Token.significant (lex "10% * 50").tokens =
      [⟨.number 10, "10", 0⟩] ++ ⟨.star, "*", 4⟩ :: [⟨.number 50, "50", 6⟩] := by decide +kernel
  have hparse : Grammar.parseText "10% * 50" =
      .ok ⟨none, .binary (.ofSymbol "*") (.literal 10 none) (.literal 50 none)⟩ := by
    refine Grammar.parse_eq_ok_iff.2 ?_
    rw [htokens]
    exact .formula (.sumOfProduct (.productMore
      (Grammar.Restricted.product_of_primary (.number rfl)) (.inl rfl)
      (.powerOfSigned (.signedOfPrimary (.number rfl)))))
  refine ⟨htrim, hnormal, hfold, ?_, fun statement v h => ?_⟩
  · rw [Scope.evalText, hparse]
    exact ⟨_, rfl, rfl⟩
  · have hrefused : evaluateLine false .empty "10% * 50" = .error (.mistake (.stray ⟨'%', 2⟩)) :=
      evaluateLineWith_of_stray hstrays
    cases hrefused.symm.trans h

end UnitSheet
