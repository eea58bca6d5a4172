import UnitSheet.Proofs.Evaluation.Rules
import UnitSheet.Proofs.Quantity.Operators
import UnitSheet.Proofs.Store
import UnitSheet.Steps

set_option autoImplicit false

namespace UnitSheet

/-- No cell is read, and every exponent is written out, as a number is, without names. -/
inductive Expr.HasWrittenExponents : Expr → Prop
  | literal {value : Float} {unit : Option String} : HasWrittenExponents (.literal value unit)
  | name {n : String} : HasWrittenExponents (.name n)
  | signed {sign : SignOp} {operand : Expr} :
      HasWrittenExponents operand → HasWrittenExponents (.signed sign operand)
  | power {base exponent : Expr} : HasWrittenExponents base → exponent.references = [] →
      HasWrittenExponents (.binary .pow base exponent)
  | binary {op : BinaryOp} {left right : Expr} : op ≠ .pow → HasWrittenExponents left →
      HasWrittenExponents right → HasWrittenExponents (.binary op left right)

def Store.IsAlike (s t : Store) : Prop :=
  ∀ n, (s.value? n).map Quantity.measure = (t.value? n).map Quantity.measure

def Failure.IsMismatch (f : Failure) : Prop := ∃ cause, f = .mismatch cause

/-- Two values have the same dimensions and units, and no mismatch stands beside a value. -/
def AreAlike : Except Failure Quantity → Except Failure Quantity → Prop
  | .ok q, .ok r => q.measure = r.measure
  | .ok _, .error f => ¬ f.IsMismatch
  | .error f, .ok _ => ¬ f.IsMismatch
  | .error _, .error _ => True

section
variable {x y : Except Failure Quantity} {f : Failure} {q q' r r' : Quantity}

theorem alike_of_map_measure (h : x.map Quantity.measure = y.map Quantity.measure) :
    AreAlike x y := by
  cases x with
  | ok q =>
    cases y with
    | ok r => exact Except.ok.inj h
    | error g => cases h
  | error f =>
    cases y with
    | ok r => cases h
    | error g => exact trivial

theorem alike_refl (x : Except Failure Quantity) : AreAlike x x := alike_of_map_measure rfl

theorem alike_error_left (y : Except Failure Quantity) (hf : ¬ f.IsMismatch) :
    AreAlike (.error f) y := by
  cases y with
  | ok r => exact hf
  | error g => exact trivial

theorem alike_error_right (x : Except Failure Quantity) (hf : ¬ f.IsMismatch) :
    AreAlike x (.error f) := by
  cases x with
  | ok q => exact hf
  | error g => exact trivial

theorem AreAlike.bind {next next' : Quantity → Except Failure Quantity} (h : AreAlike x y)
    (hnext : ∀ q r, q.measure = r.measure → AreAlike (next q) (next' r)) :
    AreAlike (x.bind next) (y.bind next') := by
  cases x with
  | ok q =>
    cases y with
    | ok r => exact hnext q r h
    | error g => exact alike_error_right _ h
  | error f =>
    cases y with
    | ok r => exact alike_error_left _ h
    | error g => exact trivial

theorem alike_sum (a b : Float) (f g : Failure) (hq : q.measure = q'.measure)
    (hr : r.measure = r'.measure) :
    AreAlike (if q.isCompatible r then .ok ⟨a, q.dims, q.unit.or r.unit⟩ else .error f)
      (if q'.isCompatible r' then .ok ⟨b, q'.dims, q'.unit.or r'.unit⟩ else .error g) := by
  obtain ⟨hdims, hunit⟩ := Quantity.measure_eq_iff.1 hq
  obtain ⟨hdims', hunit'⟩ := Quantity.measure_eq_iff.1 hr
  unfold Quantity.isCompatible
  rw [hdims, hdims', hunit, hunit']
  split
  · exact rfl
  · exact trivial

theorem alike_withProductUnit (sign : Int) (a b : Float) {d d' : Dims} (hd : d = d')
    (hq : q.measure = q'.measure) (hr : r.measure = r'.measure) :
    AreAlike (q.withProductUnit sign r a d) (q'.withProductUnit sign r' b d') := by
  subst hd
  apply alike_of_map_measure
  unfold Quantity.withProductUnit
  rw [(Quantity.measure_eq_iff.1 hq).2, (Quantity.measure_eq_iff.1 hr).2]
  split
  · rfl
  · split <;> rfl

theorem alike_multiply (hq : q.measure = q'.measure) (hr : r.measure = r'.measure) :
    AreAlike (q.multiply r) (q'.multiply r') :=
  alike_withProductUnit 1 _ _ (by rw [(Quantity.measure_eq_iff.1 hq).1, (Quantity.measure_eq_iff.1 hr).1]) hq hr

theorem alike_divide (hq : q.measure = q'.measure) (hr : r.measure = r'.measure) :
    AreAlike (q.divide r) (q'.divide r') := by
  have hzero : ¬ (Failure.eval .divisionByZero).IsMismatch := nofun
  unfold Quantity.divide
  split
  · exact alike_error_left _ hzero
  · split
    · exact alike_error_right _ hzero
    · exact alike_withProductUnit (-1) _ _
        (by rw [(Quantity.measure_eq_iff.1 hq).1, (Quantity.measure_eq_iff.1 hr).1]) hq hr

theorem not_isMismatch_of_powerMagnitude {a n : Float} {e : EvalError}
    (h : Quantity.powerMagnitude a n = .error e) : ¬ (Failure.eval e).IsMismatch := by
  rintro ⟨cause, hcause⟩
  unfold Quantity.powerMagnitude at h
  split at h
  · obtain rfl := Except.error.inj h
    cases hcause
  · obtain rfl := Except.error.inj h
    cases hcause
  · obtain rfl := Except.error.inj h
    cases hcause
  · split at h
    · obtain rfl := Except.error.inj h
      cases hcause
    · cases h

theorem alike_power (hq : q.measure = q'.measure) : AreAlike (q.power r) (q'.power r) := by
  obtain ⟨hdims, hunit⟩ := Quantity.measure_eq_iff.1 hq
  unfold Quantity.power Quantity.isDimensionless
  rw [hdims, hunit, hq]
  dsimp only
  split
  · exact trivial
  · split
    · exact trivial
    · split
      · exact trivial
      · split
        · exact trivial
        · cases hmagnitude : Quantity.powerMagnitude q.magnitude r.magnitude with
          | error e => exact alike_error_left _ (not_isMismatch_of_powerMagnitude hmagnitude)
          | ok a =>
            cases hmagnitude' : Quantity.powerMagnitude q'.magnitude r.magnitude with
            | error e => exact alike_error_right _ (not_isMismatch_of_powerMagnitude hmagnitude')
            | ok b =>
              apply alike_of_map_measure
              dsimp only
              split
              · rfl
              · split
                · rfl
                · split <;> rfl

theorem alike_apply {op : BinaryOp} (hop : op ≠ .pow) (hq : q.measure = q'.measure)
    (hr : r.measure = r'.measure) : AreAlike (op.apply q r) (op.apply q' r') := by
  cases op with
  | add => exact alike_sum _ _ _ _ hq hr
  | sub => exact alike_sum _ _ _ _ hq hr
  | mul => exact alike_multiply hq hr
  | div => exact alike_divide hq hr
  | pow => exact absurd rfl hop
  | other symbol => exact trivial

theorem alike_signApply (sign : SignOp) (hq : q.measure = q'.measure) :
    AreAlike (sign.apply q) (sign.apply q') := by
  cases sign with
  | plus => exact hq
  | minus => exact hq
  | other symbol => exact trivial

end

section
variable {s t : Store} {cell cell' : String → Except Failure Quantity} {e : Expr}

theorem alike_evalName (h : s.IsAlike t) (n : String) : AreAlike (s.evalName n) (t.evalName n) := by
  have hn := h n
  unfold Store.evalName
  cases hs : s.value? n with
  | some q =>
    cases ht : t.value? n with
    | some r =>
      rw [hs, ht] at hn
      exact Option.some.inj hn
    | none =>
      rw [hs, ht] at hn
      cases hn
  | none =>
    cases ht : t.value? n with
    | some r =>
      rw [hs, ht] at hn
      cases hn
    | none =>
      dsimp only
      split
      · exact alike_refl _
      · exact trivial

theorem evalWith_of_references_nil (h : e.references = []) :
    e.evalWith s cell = e.evalWith t cell' := by
  induction e with
  | literal value unit => rfl
  | name n => cases h
  | cell label => cases h
  | signed sign operand ih => rw [evalWith_signed, evalWith_signed, ih h]
  | binary op left right ihl ihr =>
    obtain ⟨hl, hr⟩ := List.append_eq_nil_iff.1 h
    rw [evalWith_binary, evalWith_binary, ihl hl, ihr hr]

theorem alike_evalWith (he : e.HasWrittenExponents) (h : s.IsAlike t) :
    AreAlike (e.evalWith s cell) (e.evalWith t cell') := by
  induction he with
  | literal => exact alike_refl _
  | name => exact alike_evalName h _
  | @signed sign operand _ ih =>
    rw [evalWith_signed, evalWith_signed]
    exact ih.bind fun q r hq => alike_signApply sign hq
  | @power base exponent _ hexponent ih =>
    rw [evalWith_binary, evalWith_binary, evalWith_of_references_nil hexponent]
    refine ih.bind fun q r hq => ?_
    -- The exponent has one value for both, so not only its measure is the same.
    cases exponent.evalWith t cell' with
    | error f => exact trivial
    | ok n => exact alike_power hq
  | binary hop _ _ ihl ihr =>
    rw [evalWith_binary, evalWith_binary]
    exact ihl.bind fun q r hq => ihr.bind fun _ _ hr => alike_apply hop hq hr

end

/-- Dimensions and display units do not depend on magnitudes. Take two scopes whose names have values
of the same dimensions and units, and an expression without cells whose exponents are written out:
if it has a value in both scopes, then with the same dimensions and unit, and if units do not go
together in one of them, then it has no value in the other. -/
theorem measure_of_alike {s t : Scope} {e : Expr} (he : e.HasWrittenExponents)
    (h : s.store.IsAlike t.store) :
    (∀ q r, s.eval e = .ok q → t.eval e = .ok r → q.dims = r.dims ∧ q.unit = r.unit) ∧
    (∀ cause r, s.eval e = .error (.mismatch cause) → t.eval e ≠ .ok r) ∧
    ∀ cause q, t.eval e = .error (.mismatch cause) → s.eval e ≠ .ok q := by
  have halike : AreAlike (s.eval e) (t.eval e) := alike_evalWith he h
  refine ⟨fun q r hq hr => ?_, fun cause r hs ht => ?_, fun cause q ht hs => ?_⟩
  · rw [hq, hr] at halike
    exact Quantity.measure_eq_iff.1 halike
  · rw [hs, ht] at halike
    exact halike ⟨cause, rfl⟩
  · rw [hs, ht] at halike
    exact halike ⟨cause, rfl⟩

def squaredSpan : Expr := .binary .pow (.name "span") (.literal 2 none)

def spanNames (feet : Float) : Store := Store.define .empty "span" ⟨feet, .ofLength, some "ft"⟩ "1"

theorem isAlike_spanNames (x y : Float) : (spanNames x).IsAlike (spanNames y) := by
  intro n
  unfold spanNames
  rw [Store.value?_define, Store.value?_define]
  split <;> rfl

def mixedSpan : Expr := .binary .add (.binary .div (.literal 1 none) (.name "span")) (.name "span")

/-- A length of one foot in the first scope is zero in the second. The squares of both have the same
dimensions and unit, and neither is added to its inverse: zero has none. -/
theorem measure_of_alike_squaredSpan :
    squaredSpan.HasWrittenExponents ∧ (spanNames 1).IsAlike (spanNames 0) ∧
    (∃ q r, Scope.eval ⟨spanNames 1, .empty, .none⟩ squaredSpan = .ok q ∧
      Scope.eval ⟨spanNames 0, .empty, .none⟩ squaredSpan = .ok r ∧
      q.dims = r.dims ∧ q.unit = r.unit) ∧
    mixedSpan.HasWrittenExponents ∧
    (∃ cause, Scope.eval ⟨spanNames 1, .empty, .none⟩ mixedSpan = .error (.mismatch cause)) ∧
    ∀ r, Scope.eval ⟨spanNames 0, .empty, .none⟩ mixedSpan ≠ .ok r := by
  have hwritten : squaredSpan.HasWrittenExponents := .power .name rfl
  have hmixed : mixedSpan.HasWrittenExponents := .binary nofun (.binary nofun .literal .name) .name
  have halike := isAlike_spanNames 1 0
  have hvalue {x : Except Failure Quantity} (h : x.isOk = true) : ∃ q, x = .ok q := by
    cases x with
    | ok q => exact ⟨q, rfl⟩
    | error f => cases h
  obtain ⟨q, hq⟩ : ∃ q, Scope.eval ⟨spanNames 1, .empty, .none⟩ squaredSpan = .ok q :=
    hvalue (by decide +kernel)
  obtain ⟨r, hr⟩ : ∃ r, Scope.eval ⟨spanNames 0, .empty, .none⟩ squaredSpan = .ok r :=
    hvalue (by decide +kernel)
  obtain ⟨cause, hcause⟩ : ∃ cause,
      Scope.eval ⟨spanNames 1, .empty, .none⟩ mixedSpan = .error (.mismatch cause) := ⟨_, rfl⟩
  have hmeasure := (measure_of_alike hwritten halike).1 q r hq hr
  have hnone : ∀ r, Scope.eval ⟨spanNames 0, .empty, .none⟩ mixedSpan ≠ .ok r :=
    fun r => (measure_of_alike hmixed halike).2.1 cause r hcause
  exact ⟨hwritten, halike, ⟨q, r, hq, hr, hmeasure⟩, hmixed, ⟨cause, hcause⟩, hnone⟩

end UnitSheet
