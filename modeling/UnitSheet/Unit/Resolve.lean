import UnitSheet.Error
import UnitSheet.Number.Power
import UnitSheet.Unit.Label
import UnitSheet.Unit.Registry

set_option autoImplicit false

namespace UnitSheet

def factorPower (factor : Float) (n : Int) : Except Fault Float :=
  let exponent := nearestOfInt n
  if exponent.isInf then .error .overflow
  else match power factor exponent with
    | .ok value => .ok value
    | .error .zeroBase => .error .zeroDivision
    | .error _ => .error .overflow

def applyPart (label : String) (unit : UnitDef) (part : List Char × Int) :
    Except Failure UnitDef :=
  match UnitPower.ofChars? part.1 with
  | none => .error (.eval (.unit (.illegible label)))
  | some u =>
    match unitDef? u.name with
    | none =>
      .error (.eval (.unit (.unknown u.name (hint? u.name unitNames))))
    | some base =>
      match factorPower base.factor (u.power * part.2) with
      | .error fault => .error (.fault fault)
      | .ok factor =>
        match base.dims.scale? (u.power * part.2) with
        | none => .error (.fault .overflow)
        | some dims => .ok ⟨unit.factor * factor, unit.dims + dims⟩

def resolveUnit (label : String) : Except Failure UnitDef :=
  match unitDef? label with
  | some unit => .ok unit
  | none =>
    if (labelDenominator label).contains '/' then .error (.eval (.unit (.illegible label)))
    else
      match (labelParts label).foldlM (applyPart label) ⟨1, .zero⟩ with
      | .error failure => .error failure
      | .ok unit => .ok { unit with dims := unit.dims.settle }

def labelExponents (label : String) : Except UnitError UnitExponents :=
  match UnitExponents.ofLabel? label with
  | some exponents => .ok exponents
  | none => .error (.illegible label)

end UnitSheet
