import UnitSheet.Number.Text
import UnitSheet.Text.Quoted
import UnitSheet.Unit.Resolve

set_option autoImplicit false

namespace UnitSheet

structure Quantity where
  magnitude : Float
  dims : Dims
  unit : Option String

inductive ToleranceError
  | negative
  deriving DecidableEq, Repr

def ToleranceError.message : ToleranceError → String
  | .negative => "tolerances must be non-negative"

namespace Quantity

def ofParts (magnitude : Float) (exponents : Option (List Float)) (unit : Option String) :
    Except DimsError Quantity :=
  match exponents with
  | none => .ok ⟨magnitude, .zero, unit⟩
  | some xs => (Dims.ofFloats xs).map fun dims => ⟨magnitude, dims, unit⟩

def scalar (value : Float) : Quantity := ⟨value, .zero, none⟩

def ofUnit (value : Float) (unit : Option String) : Except Failure Quantity :=
  match unit with
  | none => .ok (scalar value)
  | some label =>
    match resolveUnit label with
    | .error failure => .error failure
    | .ok u => .ok ⟨value * u.factor, u.dims, some label⟩

def isDimensionless (q : Quantity) : Bool := q.dims.isZero

def isCompatible (q r : Quantity) : Bool := q.dims == r.dims

def withUnit (q : Quantity) (unit : Option String) : Quantity := { q with unit }

def measure (q : Quantity) : Measure := ⟨q.dims, q.unit⟩

def same (q r : Quantity) : Bool :=
  q.magnitude == r.magnitude && q.isCompatible r && q.unit == r.unit

def closeFloats (a b relative absolute : Float) : Bool :=
  a == b ||
    (!a.isInf && !b.isInf &&
      (let diff := (b - a).abs
       diff ≤ (relative * b).abs || diff ≤ (relative * a).abs || diff ≤ absolute))

/-- Whether two quantities have the same dimensions and nearly the same magnitude. Tolerances are
only looked at where the dimensions agree. -/
def isClose (q r : Quantity) (relative absolute : Float) : Except ToleranceError Bool :=
  if !q.isCompatible r then .ok false
  else if relative < 0 || absolute < 0 then .error .negative
  else .ok (closeFloats q.magnitude r.magnitude relative absolute)

def describe (q : Quantity) : String :=
  let dims := ", ".intercalate (q.dims.toList.map toString)
  let unit := match q.unit with
    | some label => s!", unit={quoted label}"
    | none => ""
  s!"Quantity({numberText q.magnitude}, dims=[{dims}]{unit})"

end Quantity

end UnitSheet
