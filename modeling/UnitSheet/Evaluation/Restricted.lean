import UnitSheet.Evaluation
import UnitSheet.Grammar.Restricted

set_option autoImplicit false

namespace UnitSheet

def Expr.nodeName : Expr → String
  | literal _ _ => "QuantityLiteral"
  | name _ => "Variable"
  | cell _ => "CellReference"
  | signed _ _ => "UnaryOperation"
  | binary _ _ _ => "BinaryOperation"

/-- The value of a sum of literals. With `strict` both operands of every sum carry the same unit. -/
def Expr.evalRestricted (strict : Bool) : Expr → Except Failure Quantity
  | literal value unit => Quantity.ofUnit value unit
  | binary op left right =>
    match left.evalRestricted strict with
    | .error failure => .error failure
    | .ok l =>
      match right.evalRestricted strict with
      | .error failure => .error failure
      | .ok r =>
        match if strict then l.ensureSameUnit r else .ok () with
        | .error failure => .error failure
        | .ok () =>
          match op with
          | .add => l.add r
          | .sub => l.subtract r
          | op => .error (.eval (.operatorNotAllowed op.symbol))
  | node => .error (.eval (.nodeNotAllowed node.nodeName))

end UnitSheet
