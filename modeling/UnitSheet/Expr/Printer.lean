import UnitSheet.Expr
import UnitSheet.NameMap
import UnitSheet.Number.Text
import UnitSheet.Text.Upper

set_option autoImplicit false

namespace UnitSheet

/-- The text of an expression. Names and capitalised cell labels that have a text in `values` are
written as that text. -/
def Expr.text (values : NameMap String) : Expr → String
  | literal value none => literalText value
  | literal value (some unit) => s!"{literalText value} {unit}"
  | name n => (values.get? n).getD n
  | cell label => (values.get? (upper label)).getD label
  | signed sign operand => sign.symbol ++ operand.text values
  | binary op left right => s!"({left.text values} {op.symbol} {right.text values})"

namespace Statement

def textWith (values : NameMap String) (s : Statement) : String :=
  match s.target with
  | some name => s!"{name} = {s.expr.text values}"
  | none => s.expr.text values

def text (s : Statement) : String := s.textWith .empty

end Statement

end UnitSheet
