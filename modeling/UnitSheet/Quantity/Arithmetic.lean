import UnitSheet.Quantity

set_option autoImplicit false

namespace UnitSheet

/-- The unit of a product (`sign` one) or a quotient (`sign` minus one), with like names
collected. -/
def combineUnits (sign : Int) (left right : Option String) :
    Except UnitError (Option String) :=
  let exponents (unit : Option String) : Except UnitError UnitExponents :=
    match unit with
    | none => .ok .empty
    | some label => labelExponents label
  match exponents left with
  | .error e => .error e
  | .ok l =>
    match exponents right with
    | .error e => .error e
    | .ok r => .ok (l.combine sign r).toLabel?

def scaleUnit (unit : Option String) (n : Int) : Except UnitError (Option String) :=
  match unit with
  | none => .ok none
  | some label => (labelExponents label).map fun exponents => (exponents.scale n).toLabel?

namespace Quantity

def maxUnitPower : Float := 64

def add (q r : Quantity) : Except Failure Quantity :=
  if q.isCompatible r then .ok ⟨q.magnitude + r.magnitude, q.dims, q.unit.or r.unit⟩
  else .error (.mismatch (.add q.measure r.measure))

def subtract (q r : Quantity) : Except Failure Quantity :=
  if q.isCompatible r then .ok ⟨q.magnitude - r.magnitude, q.dims, q.unit.or r.unit⟩
  else .error (.mismatch (.subtract q.measure r.measure))

def withProductUnit (sign : Int) (q r : Quantity) (magnitude : Float) (dims : Dims) :
    Except Failure Quantity :=
  if dims.isZero then .ok ⟨magnitude, dims.settle, none⟩
  else match combineUnits sign q.unit r.unit with
    | .error e => .error (.eval (.unit e))
    | .ok unit => .ok ⟨magnitude, dims.settle, unit⟩

def multiply (q r : Quantity) : Except Failure Quantity :=
  withProductUnit 1 q r (q.magnitude * r.magnitude) (q.dims + r.dims)

def divide (q r : Quantity) : Except Failure Quantity :=
  if r.magnitude == 0 then .error (.eval .divisionByZero)
  else withProductUnit (-1) q r (q.magnitude / r.magnitude) (q.dims - r.dims)

def powerMagnitude (base exponent : Float) : Except EvalError Float :=
  match UnitSheet.power base exponent with
  | .error .zeroBase => .error .divisionByZero
  | .error .overflow => .error .overflow
  | .error .notReal => .error (.notReal base exponent)
  | .ok value => if value.isNaN then .error (.notReal base exponent) else .ok value

/-- The power by a dimensionless exponent. A base with dimensions takes only whole exponents of
moderate size. -/
def power (base exponent : Quantity) : Except Failure Quantity :=
  let n := exponent.magnitude
  if !exponent.isDimensionless then .error (.mismatch (.exponent exponent.measure))
  else match Binary.ofFloat? n with
    | none => .error (.eval (.exponentNotFinite n))
    | some exact =>
      if !base.isDimensionless && !exact.isWhole then
        .error (.mismatch (.fractionalPower base.measure n))
      else if !base.isDimensionless && maxUnitPower < n.abs then
        .error (.eval (.exponentTooLarge n))
      else match powerMagnitude base.magnitude n with
        | .error e => .error (.eval e)
        | .ok magnitude =>
          if !exact.isWhole then .ok ⟨magnitude, base.dims, none⟩
          else match base.dims.scale? exact.whole with
            | none => .error (.fault .overflow)
            | some dims =>
              match scaleUnit base.unit exact.whole with
              | .error e => .error (.eval (.unit e))
              | .ok unit => .ok ⟨magnitude, dims.settle, unit⟩

def negate (q : Quantity) : Quantity := { q with magnitude := -q.magnitude }

def ensureSameUnit (q r : Quantity) : Except Failure Unit :=
  if q.unit == r.unit then .ok () else .error (.mismatch (.written q.unit r.unit))

end Quantity

end UnitSheet
