import UnitSheet.Proofs.Line.Tiers
import UnitSheet.Proofs.Quantity.Operators

set_option autoImplicit false

namespace UnitSheet

def Expr.writtenUnits : Expr → List (Option String)
  | literal _ unit => [unit]
  | name _ => []
  | cell _ => []
  | signed _ operand => operand.writtenUnits
  | binary _ left right => left.writtenUnits ++ right.writtenUnits

/-- All literals carry the unit, or none of them carries one. -/
def Expr.IsWrittenIn (e : Expr) (unit : Option String) : Prop := ∀ u ∈ e.writtenUnits, u = unit

def unitDims : Option String → Except Failure Dims
  | none => .ok .zero
  | some label => (resolveUnit label).map UnitDef.dims

theorem isWrittenIn_literal_iff {x : Float} {u unit : Option String} :
    (Expr.literal x u).IsWrittenIn unit ↔ u = unit := List.forall_mem_singleton

theorem isWrittenIn_binary_iff {op : BinaryOp} {left right : Expr} {unit : Option String} :
    (Expr.binary op left right).IsWrittenIn unit ↔ left.IsWrittenIn unit ∧ right.IsWrittenIn unit :=
  List.forall_mem_append

section
variable {op : BinaryOp} {left right e : Expr} {q r v : Quantity} {m : Measure}

theorem exists_measure_iff {x : Except Failure Quantity} :
    (∃ q, x = .ok q ∧ q.measure = m) ↔ x.map Quantity.measure = .ok m := by
  cases x with
  | error f => exact ⟨nofun, nofun⟩
  | ok q => simp [Except.map]

theorem ofUnit_map_measure (x : Float) (unit : Option String) :
    (Quantity.ofUnit x unit).map Quantity.measure = (unitDims unit).map fun d => ⟨d, unit⟩ := by
  cases unit with
  | none => rfl
  | some label =>
    rw [Quantity.ofUnit, unitDims]
    cases resolveUnit label <;> rfl

theorem ofUnit_measure_iff {x : Float} {unit : Option String} :
    (∃ q, Quantity.ofUnit x unit = .ok q ∧ q.measure = m) ↔
      unit = m.unit ∧ unitDims m.unit = .ok m.dims := by
  rw [exists_measure_iff, ofUnit_map_measure]
  constructor
  · intro h
    cases hd : unitDims unit with
    | error f =>
      rw [hd] at h
      cases h
    | ok d =>
      rw [hd] at h
      obtain rfl := Except.ok.inj h
      exact ⟨rfl, hd⟩
  · rintro ⟨rfl, hd⟩
    rw [hd]
    rfl

theorem evalRestricted_true_binary_iff (hop : op = .add ∨ op = .sub) :
    (Expr.binary op left right).evalRestricted true = .ok v ↔
      ∃ q r, left.evalRestricted true = .ok q ∧ right.evalRestricted true = .ok r ∧
        q.unit = r.unit ∧ op.apply q r = .ok v := by
  rw [Expr.evalRestricted]
  cases left.evalRestricted true with
  | error f => simp
  | ok q =>
    cases right.evalRestricted true with
    | error f => simp
    | ok r =>
      by_cases hunit : q.unit = r.unit
      · rcases hop with rfl | rfl <;> simp [Quantity.ensureSameUnit, hunit, BinaryOp.apply]
      · simp [Quantity.ensureSameUnit, hunit]

theorem sum_measure_iff (hop : op = .add ∨ op = .sub) :
    (q.unit = r.unit ∧ ∃ v, op.apply q r = .ok v ∧ v.measure = m) ↔
      q.measure = m ∧ r.measure = m := by
  constructor
  · rintro ⟨hunit, v, hv, rfl⟩
    obtain ⟨hdims, hvdims, hvunit⟩ :
        q.dims = r.dims ∧ v.dims = q.dims ∧ v.unit = q.unit.or r.unit := by
      rcases hop with rfl | rfl
      · exact Quantity.add_eq_ok hv
      · exact Quantity.subtract_eq_ok hv
    rw [← hunit, Option.or_self] at hvunit
    exact ⟨Quantity.measure_eq_iff.2 ⟨hvdims.symm, hvunit.symm⟩,
      Quantity.measure_eq_iff.2 ⟨hdims.symm.trans hvdims.symm, hunit.symm.trans hvunit.symm⟩⟩
  · rintro ⟨rfl, hr⟩
    obtain ⟨hdims, hunit⟩ := Quantity.measure_eq_iff.1 hr
    have hcompatible : q.isCompatible r = true := beq_iff_eq.2 hdims.symm
    have hshown : q.unit.or r.unit = q.unit := by rw [hunit, Option.or_self]
    refine ⟨hunit.symm, ?_⟩
    rcases hop with rfl | rfl
    · exact ⟨_, if_pos hcompatible, Quantity.measure_eq_iff.2 ⟨rfl, hshown⟩⟩
    · exact ⟨_, if_pos hcompatible, Quantity.measure_eq_iff.2 ⟨rfl, hshown⟩⟩

/-- A sum with strict units has a value of the dimensions and the unit exactly if it is written in
the unit throughout and the unit has these dimensions. -/
theorem evalRestricted_true_measure_iff (h : Grammar.LiteralSum e) :
    (∃ q, e.evalRestricted true = .ok q ∧ q.measure = m) ↔
      e.IsWrittenIn m.unit ∧ unitDims m.unit = .ok m.dims := by
  induction h with
  | literal x unit =>
    rw [isWrittenIn_literal_iff]
    exact ofUnit_measure_iff
  | @more op left x unit _ hop ih =>
    rw [isWrittenIn_binary_iff, isWrittenIn_literal_iff]
    constructor
    · rintro ⟨v, hv, hm⟩
      obtain ⟨q, r, hq, hr, hunit, happly⟩ := (evalRestricted_true_binary_iff hop).1 hv
      obtain ⟨hqm, hrm⟩ := (sum_measure_iff hop).1 ⟨hunit, v, happly, hm⟩
      obtain ⟨hleft, hdims⟩ := ih.1 ⟨q, hq, hqm⟩
      exact ⟨⟨hleft, (ofUnit_measure_iff.1 ⟨r, hr, hrm⟩).1⟩, hdims⟩
    · rintro ⟨⟨hleft, hterm⟩, hdims⟩
      obtain ⟨q, hq, hqm⟩ := ih.2 ⟨hleft, hdims⟩
      obtain ⟨r, hr, hrm⟩ := (ofUnit_measure_iff (x := x)).2 ⟨hterm, hdims⟩
      obtain ⟨hunit, v, happly, hm⟩ := (sum_measure_iff hop).2 ⟨hqm, hrm⟩
      exact ⟨v, (evalRestricted_true_binary_iff hop).2 ⟨q, r, hq, hr, hunit, happly⟩, hm⟩

end

/-- With strict units a statement of the restricted grammar has a value exactly if all of its terms
carry one unit, which can be resolved, or none of them carries a unit. The value is shown in this unit
and has its dimensions, and it is the value that the statement has without strict units. -/
theorem strict_value_iff {text : String} {statement : Statement}
    (h : Grammar.Restricted.parse (lex text).tokens = .parsed statement) :
    ((∃ q, statement.expr.evalRestricted true = .ok q) ↔
      ∃ unit, statement.expr.IsWrittenIn unit ∧ ∃ d, unitDims unit = .ok d) ∧
    ∀ q, statement.expr.evalRestricted true = .ok q →
      statement.expr.IsWrittenIn q.unit ∧ unitDims q.unit = .ok q.dims ∧
        statement.expr.evalRestricted false = .ok q := by
  have hsum : Grammar.LiteralSum statement.expr :=
    (Grammar.Restricted.parse_of_parsed (sumsSpelled_lex text) h).2
  have hmeasure : ∀ q, statement.expr.evalRestricted true = .ok q →
      statement.expr.IsWrittenIn q.unit ∧ unitDims q.unit = .ok q.dims :=
    fun q hq => (evalRestricted_true_measure_iff hsum).1 ⟨q, hq, rfl⟩
  refine ⟨⟨fun ⟨q, hq⟩ => ?_, fun ⟨unit, hwritten, d, hd⟩ => ?_⟩, fun q hq => ?_⟩
  · exact ⟨q.unit, (hmeasure q hq).1, q.dims, (hmeasure q hq).2⟩
  · obtain ⟨q, hq, -⟩ := (evalRestricted_true_measure_iff (m := ⟨d, unit⟩) hsum).2 ⟨hwritten, hd⟩
    exact ⟨q, hq⟩
  · obtain ⟨hwritten, hdims⟩ := hmeasure q hq
    rcases evalRestricted_true hsum with heq | ⟨l, r, heq⟩
    · exact ⟨hwritten, hdims, heq.symm.trans hq⟩
    · rw [hq] at heq
      cases heq

theorem strict_value_iff_threeTerms :
    ∃ statement, Grammar.Restricted.parse (lex "5 in + 4 in - 2 in").tokens = .parsed statement ∧
      ∃ q, statement.expr.evalRestricted true = .ok q ∧ q.unit = some "in" ∧
        unitDims (some "in") = .ok q.dims ∧ statement.expr.evalRestricted false = .ok q := by
  have htokens : (lex "5 in + 4 in - 2 in").tokens = [⟨.number 5, "5", 0⟩, ⟨.whitespace, " ", 1⟩,
      ⟨.unit, "in", 2⟩, ⟨.whitespace, " ", 4⟩, ⟨.plus, "+", 5⟩, ⟨.whitespace, " ", 6⟩,
      ⟨.number 4, "4", 7⟩, ⟨.whitespace, " ", 8⟩, ⟨.unit, "in", 9⟩, ⟨.whitespace, " ", 11⟩,
      ⟨.minus, "-", 12⟩, ⟨.whitespace, " ", 13⟩, ⟨.number 2, "2", 14⟩, ⟨.whitespace, " ", 15⟩,
      ⟨.unit, "in", 16⟩] := by decide +kernel
  have hparse : Grammar.Restricted.parse (lex "5 in + 4 in - 2 in").tokens =
      .parsed ⟨none, .binary .sub (.binary .add (.literal 5 (some "in")) (.literal 4 (some "in")))
        (.literal 2 (some "in"))⟩ := by
    rw [htokens]
    simp [Grammar.Restricted.parse, Token.significant, TokenKind.isWhitespace,
      Grammar.Restricted.isBeyond, readStatement, takeTarget, Grammar.Restricted.readSum,
      Grammar.Restricted.readTerm, Grammar.Restricted.readSumTail, takeUnit, Grammar.sumOp?,
      BinaryOp.ofSymbol]
  obtain ⟨d, hd⟩ : ∃ d, unitDims (some "in") = .ok d := ⟨_, rfl⟩
  have hvalue := strict_value_iff hparse
  obtain ⟨q, hq⟩ := hvalue.1.2 ⟨some "in", by simp [Expr.IsWrittenIn, Expr.writtenUnits], d, hd⟩
  obtain ⟨hwritten, hdims, hloose⟩ := hvalue.2 q hq
  have hunit : q.unit = some "in" :=
    (hwritten (some "in") (by simp [Expr.writtenUnits])).symm
  exact ⟨_, hparse, q, hq, hunit, hunit ▸ hdims, hloose⟩

end UnitSheet
